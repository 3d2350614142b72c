import DoorRtos.Theorems.Destinations
import DoorRtos.Theorems.Results
import DoorRtos.Theorems.WallClock

/-! The arguments with which the priority process calls `set_process_priority`, and what reaches the kernel of them. -/

namespace DoorRtos
open Interaction

/-- A process that exists, and one of the four priorities. -/
structure Proper (k : Kernel) (processID priority : Int) : Prop where
  pid : 1 ≤ processID ∧ processID ≤ 99
  process : ∃ p, k.Created p ∧ (p.val : Int) = processID
  priority : 0 ≤ priority ∧ priority ≤ 3

/-- The trap of the call hands these very numbers to the primitive, whatever the state. -/
def Arrives (processID priority : Int) : Prop :=
  ∀ k : Kernel, let k' := (Call.setProcessPriority (ofInt processID) (ofInt priority)).enter k
    swiTrapHandler k' = kernelSetProcessPriority processID.toNat priority.toNat k' >>= fun r =>
      .returned { r.2 with retCode := r.1 }

/-- The process asks for the priority of a command only when it is proper, and answers any other command with the error
    message. -/
structure Obeys (k : Kernel) (env : Envelope) (h : History Op Ans) : Prop where
  asked : ∀ r ∈ settings h, r = (env.inProcess, env.inPriority) ∧ Proper k r.1 r.2 ∧ Arrives r.1 r.2
  refused : ¬Proper k env.inProcess env.inPriority →
    settings h = [] ∧ textsShown h = [errorText env.inPriority env.inProcess]

section
variable {k : Kernel} {env : Envelope} {spare : Addr} {p q : Int}

theorem toNat_ofInt (h : 0 ≤ p) (h' : p < 2 ^ 32) : ofInt p = p.toNat := by
  unfold ofInt
  rw [BitVec.toNat_ofInt]
  exact congrArg Int.toNat (Int.emod_eq_of_lt h h')

theorem Proper.arrives (h : Proper k p q) : Arrives p q := by
  intro k₁
  have hpid := toNat_ofInt (show 0 ≤ p by have := h.pid; omega) (by have := h.pid; omega)
  have hprio := toNat_ofInt h.priority.1 (by have := h.priority; omega)
  have hbyte : q.toNat % 2 ^ 8 = q.toNat := Nat.mod_eq_of_lt (by have := h.priority; omega)
  have hparam : ((Call.setProcessPriority (ofInt p) (ofInt q)).enter k₁).param1 = p.toNat := hpid
  have hparam' : ((Call.setProcessPriority (ofInt p) (ofInt q)).enter k₁).param2 = q.toNat := hprio
  dsimp only
  rw [swiTrapHandler_setPrio rfl, hparam, hparam', hbyte]

/-- The test of the process bounds the priority on one side only. -/
theorem TableSet.isValid_iff (h : TableSet k) :
    env.IsValid k ↔ (1 ≤ env.inProcess ∧ env.inProcess ≤ 99) ∧ (∃ p, k.Created p ∧ (p.val : Int) = env.inProcess) ∧
      env.inPriority ≤ 3 := by
  have hfound (hpos : 0 < env.inProcess) (hlt : env.inProcess < 100) :
      (DoorRtos.getPcb k env.inProcess.toNat).isSome ↔ ∃ p, k.Created p ∧ (p.val : Int) = env.inProcess := by
    constructor
    · intro hsome
      obtain ⟨p, hp⟩ := Option.isSome_iff_exists.mp hsome
      have hslot := getPcb_eq_some hp
      rcases h.tableOk p with hc | hdummy
      · have hval : p.val = env.inProcess.toNat := hc.symm.trans hslot
        exact ⟨p, hc, by omega⟩
      · have hval : dummyPid = env.inProcess.toNat := hdummy.symm.trans hslot
        unfold dummyPid at hval
        omega
    · rintro ⟨p, hc, hval⟩
      have hpid : env.inProcess.toNat = p.val := by omega
      rw [hpid, h.getPcb hc]
      rfl
  unfold Envelope.IsValid
  constructor
  · rintro ⟨hpos, hlt, hprio, hsome⟩
    exact ⟨⟨hpos, by omega⟩, (hfound hpos hlt).mp hsome, by omega⟩
  · rintro ⟨⟨hpos, hle⟩, hp, hprio⟩
    exact ⟨hpos, by omega, by omega, (hfound hpos (by omega)).mpr hp⟩

/-- A command is handled by asking for its priority or by the error message. -/
theorem setPrioHandle_spec (hcmd : env.IsCommand) (k : Kernel) (spare : Addr) :
    (setPrioHandle k spare env).Sat fun h _ => (env.IsValid k → settings h = [(env.inProcess, env.inPriority)]) ∧
      (¬env.IsValid k → settings h = [] ∧ textsShown h = [errorText env.inPriority env.inProcess]) := by
  unfold setPrioHandle
  rw [if_pos hcmd]
  split
  next hvalid => exact .call fun _ => .ret ⟨fun _ => rfl, fun hno => absurd hvalid hno⟩
  next hvalid =>
    exact (message_displays spare (errorText env.inPriority env.inProcess)).imp fun h _ ⟨_, hset, hdis⟩ =>
      ⟨fun hyes => absurd hyes hvalid, fun _ => ⟨hset, hdis.eq_textsShown⟩⟩

theorem TableSet.obeys_iff (h : TableSet k) (hcmd : env.IsCommand) :
    (∀ g, (setPrioHandle k spare env).Does g () → Obeys k env g) ↔ ¬(env.IsValid k ∧ env.inPriority < 0) := by
  constructor
  · rintro hall ⟨hvalid, hneg⟩
    obtain ⟨g, ⟨⟩, hd⟩ := Prog.exists_does (setPrioHandle k spare env)
    have hset := (setPrioHandle_spec hcmd k spare g () hd).1 hvalid
    obtain ⟨-, hproper, -⟩ := (hall g hd).asked _ (hset ▸ List.mem_singleton_self _)
    exact absurd hproper.priority.1 (Int.not_le.mpr hneg)
  · intro hno g hd
    obtain ⟨hyes, hrefuses⟩ := setPrioHandle_spec hcmd k spare g () hd
    by_cases hvalid : env.IsValid k
    · obtain ⟨hpid, hp, hprio⟩ := h.isValid_iff.mp hvalid
      have hproper : Proper k env.inProcess env.inPriority :=
        ⟨hpid, hp, Int.not_lt.mp fun hneg => hno ⟨hvalid, hneg⟩, hprio⟩
      refine ⟨fun r hr => ?_, fun himproper => absurd hproper himproper⟩
      rw [hyes hvalid] at hr
      obtain rfl := List.mem_singleton.mp hr
      exact ⟨rfl, hproper, hproper.arrives⟩
    · refine ⟨fun r hr => ?_, fun _ => hrefuses hvalid⟩
      rw [(hrefuses hvalid).1] at hr
      exact (List.not_mem_nil hr).elim

end

/-- In every state reachable after the start, the process handles a command as it should exactly when the command is
    refused or its priority is not negative. -/
theorem setPrio_obeys_iff (k₀ : Kernel) :
    ∃ k, startScheduler k₀ = .switched k ∧ ∀ deeds : List Deed, Runs.Throughout Deed.after (fun k =>
      ∀ spare env, Envelope.IsCommand env → ((∀ g, (setPrioHandle k spare env).Does g () → Obeys k env g) ↔
        ¬(env.IsValid k ∧ env.inPriority < 0))) k deeds := by
  obtain ⟨k, hs, h⟩ := startScheduler_spec k₀
  refine ⟨k, hs, fun deeds => ?_⟩
  exact (h.tableSet.throughout deeds).imp fun k hk spare env hcmd => hk.obeys_iff hcmd

/-- The command `C 01 /`: the character in front of `'0'` is priority -1, and the primitive is given 255. -/
theorem setPrio_below_zero :
    let env := textMessage firstBlock 0 [67, 32, 48, 49, 32, 47]
    ∃ k g, boot rtosMap = .switched k ∧ env.IsCommand ∧ (setPrioHandle k secondBlock env).Does g () ∧
      settings g = [(1, -1)] ∧ ¬Obeys k env g ∧ ofInt (-1) % 2 ^ 8 = 255 := by
  obtain ⟨k, hs, h⟩ := boot_spec rtosMap
  obtain ⟨g, ⟨⟩, hd⟩ := Prog.exists_does
    (setPrioHandle k secondBlock (textMessage firstBlock 0 [67, 32, 48, 49, 32, 47]))
  have hcreated : k.Created 1 := h.started.created_iff.mpr (by decide)
  have hvalid : Envelope.IsValid k (textMessage firstBlock 0 [67, 32, 48, 49, 32, 47]) :=
    h.started.tableSet.isValid_iff.mpr ⟨by decide, ⟨1, hcreated, by decide⟩, by decide⟩
  have hset := (setPrioHandle_spec ⟨rfl, rfl⟩ k secondBlock g () hd).1 hvalid
  refine ⟨k, g, hs, ⟨rfl, rfl⟩, hd, hset, fun hobeys => ?_, by decide⟩
  obtain ⟨-, hproper, -⟩ := hobeys.asked _ (hset ▸ List.mem_singleton_self _)
  exact absurd hproper.priority.1 (by decide)

end DoorRtos
