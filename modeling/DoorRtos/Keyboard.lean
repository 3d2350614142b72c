import DoorRtos.Programs

/-! The keyboard decoder of `kcd_process.c`, one round of its loop for every message. Debugging output is left out. -/

namespace DoorRtos

namespace MessType
def keyboardInput : Nat := 0x21
end MessType

abbrev maxCommandSize : Nat := 32

def percent : UInt8 := 37

def Envelope.put (env : Envelope) (i : Nat) (c : UInt8) : Envelope := { env with data := Function.update env.data i c }

/-- `Strncpy` from index `i` on: at most `n` characters of a text, and a `'\0'` behind them. -/
def strncpy (newString : Nat → UInt8) (i : Nat) : List UInt8 → Nat → Nat → UInt8
  | c :: cs, n + 1 => strncpy (Function.update newString i c) (i + 1) cs n
  | _, _ => Function.update newString i 0

/-- The text `"\rnot OK"`. -/
def errmess : List UInt8 := [13, 110, 111, 116, 32, 79, 75]

/-- The local variables. The table `map` ends at index 127; the entries behind it stand for what lies there on the
    stack. The envelope `tosend` comes with its content, to which nobody else writes while the process holds it. -/
structure Kcd where
  map : UInt8 → Nat
  i : Nat
  charTyped : Nat
  bufferFlag : Bool
  tosend : Option Envelope

/-- What is seen of a round: an access to `map[n]`, the statement `tosend->data[i] = c`, and what `send_message` is
    called with, the envelope with its content. -/
inductive KcdAct where
  | index (n : UInt8)
  | stores (i : Nat) (c : UInt8)
  | command (processID : Nat) (tosend : Envelope)
  | error (error : Envelope)
  | echo (kcdMess : Envelope)

/-- A message that is received, and the block that the process is given if it requests one in this round, as its last
    owner has left it. -/
structure KcdEvent where
  kcdMess : Envelope
  block : Envelope

namespace Kcd

/-- Before the first round `map` has not been initialised. -/
def start (map : UInt8 → Nat) : Kcd := ⟨map, 0, 0, false, none⟩

/-- A registration. A store behind the table hits other variables of the process; the round is not followed further. -/
def commandRegistration (s : Kcd) (kcdMess : Envelope) : List KcdAct × Option Kcd :=
  let n := kcdMess.data 0
  ([.index n], if n < 128 then some { s with map := Function.update s.map n kcdMess.senderPid } else none)

def keyboardInput (s : Kcd) (c : UInt8) (block : Envelope) : List KcdAct × Option Kcd :=
  if c = percent ∧ ¬s.bufferFlag then ([], some { s with tosend := some block, bufferFlag := true })
  else if s.bufferFlag then
    match s.tosend with
    | none => ([], none)
    | some tosend =>
      if c = carriageReturn then
        let n := tosend.data 0
        ([.index n, .command (s.map n) tosend], some { s with i := 0, bufferFlag := false })
      else if s.i < maxCommandSize then
        ([.stores s.i c], some { s with tosend := some (tosend.put s.i c), i := s.i + 1 })
      else ([], some s)
  else if s.charTyped > 2 ∧ c = carriageReturn then
    let error := { block with data := strncpy block.data 0 errmess 32, type := MessType.crtDisplayNoPrompt }
    ([.error error], some { s with charTyped := 0 })
  else if c = carriageReturn then ([], some { s with charTyped := 0 })
  else ([], some { s with charTyped := s.charTyped + 1 })

/-- The local echo at the end of a round. -/
def echo (kcdMess : Envelope) (r : List KcdAct × Option Kcd) : List KcdAct × Option Kcd :=
  match r.2 with
  | some s => (r.1 ++ [.echo { kcdMess with type := MessType.crtDisplayRequest }], some s)
  | none => r

def handle (s : Kcd) (ev : KcdEvent) : List KcdAct × Option Kcd :=
  if ev.kcdMess.type = MessType.commandRegistration then
    let kcdMess := ev.kcdMess.put 1 0
    echo kcdMess (s.commandRegistration kcdMess)
  else if ev.kcdMess.type = MessType.keyboardInput then
    echo ev.kcdMess (s.keyboardInput (ev.kcdMess.data 0) ev.block)
  else echo ev.kcdMess ([], some s)

end Kcd

/-! ### What has come in -/

/-- The characters registered, each with the process that has registered it, the newest first, and the characters typed
    behind a `'%'` that no carriage return has followed. -/
structure Seen where
  registered : List (UInt8 × Nat)
  typed : Option (List UInt8)

namespace Envelope

def Registers (env : Envelope) : Prop := env.type = MessType.commandRegistration

def Types (env : Envelope) (c : UInt8) : Prop := env.type = MessType.keyboardInput ∧ env.data 0 = c

instance (env : Envelope) : Decidable env.Registers := inferInstanceAs (Decidable (_ = _))

instance (env : Envelope) (c : UInt8) : Decidable (env.Types c) := inferInstanceAs (Decidable (_ ∧ _))

end Envelope

namespace Seen

def start : Seen := ⟨[], none⟩

def note (g : Seen) (env : Envelope) : Seen :=
  if env.Registers then { g with registered := (env.data 0, env.senderPid) :: g.registered }
  else if env.type = MessType.keyboardInput then
    match g.typed with
    | none => if env.data 0 = percent then { g with typed := some [] } else g
    | some cs =>
      if env.data 0 = carriageReturn then { g with typed := none } else { g with typed := some (cs ++ [env.data 0]) }
  else g

/-- It ends where a registration is outside of the table. -/
def step (g : Seen) (env : Envelope) : Option Seen :=
  if env.Registers ∧ ¬env.data 0 < 128 then none else some (g.note env)

end Seen

/-- The decoder together with what has come in. -/
structure Watch where
  kcd : Kcd
  seen : Seen

namespace Watch

def start (map : UInt8 → Nat) : Watch := ⟨.start map, .start⟩

def step (w : Watch) (ev : KcdEvent) : Option Watch :=
  (w.kcd.handle ev).2.map fun s => ⟨s, w.seen.note ev.kcdMess⟩

end Watch
end DoorRtos
