import DoorRtos.Ensemble

/-! What each statement of a process does in its node, as a rule for programs. -/

namespace DoorRtos
open Interaction Network

/-- What has been seen of a run is not changed by steps that no other node sees. -/
def Unseen (P : List (Action PcbRef Envelope) → Prop) : Prop := ∀ es es', Quiet es → P es' → P (es ++ es')

/-- What is seen of a message that process `p` sends to process `q`. One to a slot that does not carry its own pid is
    refused. -/
def posts (pids : PcbRef → Nat) (p q : PcbRef) (l : Local) (e : Addr) : Action PcbRef Envelope :=
  if pids q = q.val then .send q (l.letter (pids p) e) else .silent

namespace Content

/-- What an envelope holds after a text has been stored from index `i` on. -/
def storeText (c : Content) : Nat → List Nat → Content
  | _, [] => c
  | i, x :: xs => (c.store (.data i) x).storeText (i + 1) xs

end Content

namespace Local

def set (l : Local) (e : Addr) (content : Content) : Local := { l with memory := Function.update l.memory e content }

section
variable {l : Local} {b e : Addr} {content content' : Content}

@[simp] theorem mem_obtain : e ∈ (l.obtain b content).held ↔ e = b ∨ e ∈ l.held := List.mem_cons

@[simp] theorem mem_give : e ∈ (l.give b).held ↔ e ∈ l.held ∧ e ≠ b := by simp [give]

@[simp] theorem held_set : (l.set e content).held = l.held := rfl

@[simp] theorem memory_set : (l.set e content).memory e = content := Function.update_self ..

@[simp] theorem memory_obtain : (l.obtain b content).memory b = content := Function.update_self ..

@[simp] theorem set_set : (l.set e content).set e content' = l.set e content' := by
  unfold set
  rw [Function.update_idem]

theorem store_eq (field : Field) (value : Nat) : l.store e field value = l.set e ((l.memory e).store field value) := rfl

end
end Local

section
variable {pids : PcbRef → Nat} {p q : PcbRef} {l : Local} {op : Op} {b e : Addr} {field : Field} {value i : Nat}
  {text : List Nat} {α β : Type} {code : Proc α} {f : α → Proc β} {P : List (Action PcbRef Envelope) → Prop}
  {Q : List (Action PcbRef Envelope) → Local → β → Prop} {R : Local → α → Prop}

theorem clockEffect_pull : (clockEffect pids p).pull ClockOp.basic (fun _ x => x) = effect pids p := by
  unfold Effect.pull clockEffect effect
  congr 1
  · funext l op
    refine propext (and_congr_right fun _ =>
      forall_congr' fun e => forall_congr' fun field => forall_congr' fun value => ?_)
    exact imp_congr_left ⟨fun h => ClockOp.basic.inj h, congrArg ClockOp.basic⟩
  · funext l op x a l'
    refine propext ⟨?_, fun h => ⟨x, rfl, .basic h⟩⟩
    rintro ⟨y, rfl, h⟩
    cases h with
    | basic h => exact h

/-- What is specified of a process that delays no messages. -/
theorem spec_code {R : List (Action PcbRef Envelope) → Local → α → Prop} :
    code.code.Spec (clockEffect pids p) l P R ↔ code.Spec (effect pids p) l P R := by
  unfold Proc.code
  rw [Prog.spec_hoist, clockEffect_pull]

theorem careful_of_spec {code : Proc Unit} (h : ∀ l, code.Spec (effect pids p) l (fun _ => True) fun _ _ _ => True) :
    Careful pids p code.code := fun contents => spec_code.mpr (h ⟨[], contents⟩)

theorem sent_posts (hq : pids q = q.val) : Network.sent q [posts pids p q l e] = [l.letter (pids p) e] := by
  rw [posts, if_pos hq]
  simp [Network.sent, Action.sends]

theorem sent_posts_of_ne {j : PcbRef} (hj : q ≠ j) : Network.sent j [posts pids p q l e] = [] := by
  unfold posts
  split <;> simp [Network.sent, Action.sends, hj]

theorem received_posts : Network.received [posts pids p q l e] = [] := by
  unfold posts
  split <;> rfl

/-! ### Sequences -/

theorem unseen_quiet : Unseen Quiet := fun _ _ h h' => h.append h'

theorem unseen_const {c : Prop} : Unseen fun _ => c := fun _ _ _ h => h

/-- Of what nodes have sent and received, quiet steps are not seen. -/
theorem unseen_sent {j : PcbRef} {S : List Envelope → List Envelope → Prop} :
    Unseen fun es => S (Network.sent j es) (Network.received es) := fun es es' hes h => by
  show S (Network.sent j (es ++ es')) (Network.received (es ++ es'))
  rw [sent_append, Network.received_append, hes.sent, hes.received]
  exact h

/-- A part of a process that does nothing that other nodes see, and the rest. -/
theorem Spec.quietly (hcode : code.Spec (effect pids p) l Quiet fun es l' a => Quiet es ∧ R l' a) (hP : Unseen P)
    (hQ : ∀ l b, Unseen fun es => Q es l b) (hnil : P []) (hf : ∀ l' a, R l' a → (f a).Spec (effect pids p) l' P Q) :
    (code >>= f).Spec (effect pids p) l P Q := by
  refine Prog.Spec.bind (hcode.imp (fun es hes => ?_) fun _ _ _ h => h) fun es l' a h =>
    (hf l' a h.2).imp (fun es' => hP es es' h.1) fun es' l b => hQ l b es es' h.1
  have hkept := hP es [] hes hnil
  rwa [List.append_nil] at hkept

/-! ### The statements -/

theorem spec_perform {P : List (Action PcbRef Envelope) → Prop} {Q : List (Action PcbRef Envelope) → Local → Ans op → Prop}
    (huses : ∀ b, op.operand = some b → b ∈ l.held) (hbounds : ∀ e field value, op = .store e field value → field.InBounds)
    (hnil : P []) (h : ∀ x a l', Acts pids p l op x a l' → P [a] ∧ Q [a] l' x) :
    (Prog.perform op).Spec (effect pids p) l P Q :=
  .call hnil ⟨huses, hbounds⟩ fun x a l' hact => .ret (h x a l' hact).1 (h x a l' hact).2

theorem spec_requestMemoryBlock : requestMemoryBlock.Spec (effect pids p) l Quiet fun es l' b =>
    Quiet es ∧ b ∉ l.held ∧ ∃ content, l' = l.obtain b content := by
  refine spec_perform nofun nofun .nil fun x a l' hact => ?_
  cases hact with
  | request _ content hnew => exact ⟨.silent, .silent, hnew, content, rfl⟩

theorem spec_store (he : e ∈ l.held) (hf : field.InBounds) : (store e field value).Spec (effect pids p) l Quiet
    fun es l' _ => Quiet es ∧ l' = l.store e field value := by
  refine spec_perform (fun b hb => Option.some.inj hb ▸ he) (fun e' field' value' he' => ?_) .nil fun x a l' hact => ?_
  · cases he'
    exact hf
  · cases hact with
    | store => exact ⟨.silent, .silent, rfl⟩

theorem spec_storeText (he : e ∈ l.held) (hi : i + text.length ≤ messDataSize) :
    (storeText e i text).Spec (effect pids p) l Quiet
      fun es l' _ => Quiet es ∧ l' = l.set e ((l.memory e).storeText i text) := by
  induction text generalizing l i with
  | nil => exact .ret .nil ⟨.nil, by simp [Local.set, Content.storeText]⟩
  | cons x xs ih =>
    rw [List.length_cons] at hi
    have hbounds : (Field.data i).InBounds := show i < messDataSize by omega
    refine Spec.quietly (spec_store he hbounds) unseen_quiet (fun _ _ es es' hes h => ⟨hes.append h.1, h.2⟩) .nil ?_
    rintro _ _ rfl
    refine (ih (l := l.store e (.data i) x) he (by omega)).imp (fun _ h => h) fun es l' _ h => ⟨h.1, h.2.trans ?_⟩
    rw [Local.store_eq, Local.memory_set, Local.set_set]
    rfl

theorem spec_releaseMemoryBlock (hb : b ∈ l.held) : (releaseMemoryBlock b).Spec (effect pids p) l Quiet
    fun es l' _ => Quiet es ∧ l' = l.give b := by
  refine spec_perform (fun b' hb' => Option.some.inj hb' ▸ hb) nofun .nil fun x a l' hact => ?_
  cases hact with
  | release => exact ⟨.silent, .silent, rfl⟩

theorem spec_releaseProcessor : releaseProcessor.Spec (effect pids p) l Quiet fun es l' _ => Quiet es ∧ l' = l := by
  refine spec_perform nofun nofun .nil fun x a l' hact => ?_
  cases hact with
  | releaseProcessor => exact ⟨.silent, .silent, rfl⟩

theorem spec_write (register : Register) : (write register value).Spec (effect pids p) l Quiet
    fun es l' _ => Quiet es ∧ l' = l := by
  refine spec_perform nofun nofun .nil fun x a l' hact => ?_
  cases hact with
  | write => exact ⟨.silent, .silent, rfl⟩

/-- A message that a process sends: the other nodes see it when it is not refused. -/
theorem spec_sendMessage (he : e ∈ l.held) : (sendMessage q e).Spec (effect pids p) l
    (fun es => es = [] ∨ es = [posts pids p q l e]) fun es l' _ => es = [posts pids p q l e] ∧ l' = l.give e := by
  refine spec_perform (fun b hb => Option.some.inj hb ▸ he) nofun (Or.inl rfl) fun x a l' hact => ?_
  cases hact with
  | send _ _ hq =>
    rw [posts, if_pos hq]
    exact ⟨Or.inr rfl, rfl, rfl⟩
  | refused _ _ hno =>
    rw [posts, if_neg hno]
    exact ⟨Or.inr rfl, rfl, rfl⟩

theorem spec_receiveMessage : receiveMessage.Spec (effect pids p) l
    (fun es => es = [] ∨ ∃ env, es = [.receive env])
    fun es l' x => ∃ env, x = some env ∧ env.addr ∉ l.held ∧ es = [.receive env] ∧
      l' = l.obtain env.addr ⟨env.type, env.data⟩ := by
  refine spec_perform nofun nofun (Or.inl rfl) fun x a l' hact => ?_
  cases hact with
  | receive env hnew => exact ⟨Or.inr ⟨env, rfl⟩, env, rfl, hnew, rfl, rfl⟩

end
end DoorRtos
