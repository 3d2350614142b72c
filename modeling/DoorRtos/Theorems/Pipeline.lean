import DoorRtos.Theorems.Producers
import DoorRtos.Theorems.Simulation

/-! The stress test on the kernel: the reports of the producers go through the relays in order, and none is lost,
    duplicated or changed. -/

namespace DoorRtos
open Interaction Linked Network Runs

/-- The process that a statement sends a message to. -/
def ClockOp.addressee : ClockOp → Option PcbRef
  | basic (.sendMessage q _) | delayedSend q _ _ => some q
  | _ => none

/-- The code sends nothing to process `q`, whatever it is answered. -/
def Avoids (q : PcbRef) (code : ClockProc Unit) : Prop := code.All fun op => op.addressee ≠ some q

/-- The relay has been given the reports of each source in the order of their numbers, and nothing else, and has passed them
    on as they were. -/
structure Piped (sources : List PcbRef) (got passed : List Envelope) : Prop extends Relayed got passed where
  numbers : ∀ a ∈ sources, Counts 0 (got.filter fun env => env.senderPid = a.val)
  only : ∀ env ∈ got, ∃ a ∈ sources, env.senderPid = a.val

section
variable {pids : PcbRef → Nat} {i j p q r d : PcbRef} {n n' : Node} {es : List (Action PcbRef Envelope)} {m : Envelope}
  {num : UInt32} {got got' : List Envelope} {c : Config PcbRef Node Envelope} {log : Log PcbRef Envelope}
  {contents : Addr → Content} {program : PcbRef → ClockProc Unit} {P : List (Action PcbRef Envelope) → Prop}
  {sources : List PcbRef} {k : Kernel} {img : Layout}

/-! ### The nodes -/

/-- What a statement sends goes to its addressee, and carries the pid of the process. -/
theorem clockActs_sends {l l' : Local} {op : ClockOp} {x : ClockAns op} {a : Action PcbRef Envelope}
    (h : ClockActs pids p l op x a l') (hm : a.sends q = some m) : op.addressee = some q ∧ m.senderPid = pids p := by
  have hsend : ∀ (q' : PcbRef) (e : Addr), (Action.send q' (l.letter (pids p) e)).sends q = some m →
      q' = q ∧ m.senderPid = pids p := by
    intro q' e he
    obtain ⟨hq, he⟩ := Option.ite_none_right_eq_some.mp he
    cases he
    exact ⟨hq, rfl⟩
  cases h with
  | basic h =>
    cases h with
    | send q' e hq => exact (hsend q' e hm).imp (congrArg some) id
    | _ => cases hm
  | now q' e delay hd hq => exact (hsend q' e hm).imp (congrArg some) id
  | later => cases hm

/-- Every message of a node carries its pid. -/
theorem senderPid_of_path (h : Path (nodeStep pids p) n es n') : ∀ m ∈ Network.sent q es, m.senderPid = pids p := by
  induction h with
  | nil n => exact fun _ hm => absurd hm List.not_mem_nil
  | @cons n n₁ n' a es hs _ ih =>
    intro m hm
    obtain ⟨a', ha', hsends⟩ := List.mem_filterMap.mp hm
    rcases List.mem_cons.mp ha' with rfl | ha'
    · cases hs with
      | call hact => exact (clockActs_sends hact hsends).2
    · exact ih m (List.mem_filterMap.mpr ⟨a', ha', hsends⟩)

theorem Avoids.sent (h : Avoids q n.1) (hpath : Path (nodeStep pids p) n es n') : Network.sent q es = [] := by
  induction hpath with
  | nil n => rfl
  | @cons n n₁ n' a es hs _ ih =>
    cases hs with
    | @call op next l l' x a hact =>
      have hno : a.sends q = none := by
        cases ha : a.sends q with
        | none => rfl
        | some m => exact absurd (clockActs_sends hact ha).1 h.1
      unfold Network.sent at ih ⊢
      rw [List.filterMap_cons, hno]
      exact ih (h.2 x)

theorem avoids_code {α : Type} {code : Proc α} (h : code.All fun op => (ClockOp.basic op).addressee ≠ some q) :
    code.code.All fun op => op.addressee ≠ some q := Prog.all_hoist h

theorem storeText_all {good : Op → Prop} (e : Addr) (i : Nat) (text : List Nat)
    (h : ∀ field value, good (.store e field value)) :
    (storeText e i text).All good := by
  induction text generalizing i with
  | nil => trivial
  | cons x xs ih => exact .bind (.perform (h _ _)) fun _ => ih (i + 1)

theorem producer_avoids (hd : d ≠ q) (hkcd : kcdPid ≠ q) (currentPid : Nat) (command : Char) (m n : Nat) :
    Avoids q (producer currentPid command d m n).code := by
  have hsend : ∀ {d : PcbRef} {e : Addr}, d ≠ q → (ClockOp.basic (.sendMessage d e)).addressee ≠ some q :=
    fun hd he => hd (Option.some.inj he)
  have hawait : ∀ m, (awaitCommand command m).All fun op => (ClockOp.basic op).addressee ≠ some q := fun m => by
    induction m with
    | zero => trivial
    | succ m ih =>
      refine .bind (.perform nofun) fun x => ?_
      cases x with
      | none => trivial
      | some env =>
        dsimp only
        split
        · exact .bind (.perform nofun) fun _ => trivial
        · exact .bind (.perform nofun) fun _ => ih
  have hcount : ∀ num, (countReports d n num).All fun op => (ClockOp.basic op).addressee ≠ some q := by
    induction n with
    | zero => exact fun _ => trivial
    | succ n ih =>
      exact fun num => .bind (.perform nofun) fun b => .bind (.perform nofun) fun _ =>
        .bind (storeText_all b 0 _ fun _ _ => nofun) fun _ => .bind (.perform (hsend hd)) fun _ =>
          .bind (.perform nofun) fun _ => ih (num + 1)
  refine avoids_code (.bind (.perform nofun) fun _ => .bind ?_ fun _ => .bind (hawait m) fun commanded => ?_)
  · exact .bind (.perform nofun) fun b => .bind (.perform nofun) fun _ => .bind (.perform nofun) fun _ =>
      .bind (.perform nofun) fun _ => .perform (hsend hkcd)
  · cases commanded with
    | true => exact hcount 0
    | false => trivial

theorem relay_avoids (hd : d ≠ q) (n : Nat) : Avoids q (relay d n).code := by
  refine avoids_code ?_
  induction n with
  | zero => trivial
  | succ n ih =>
    refine .bind (.perform nofun) fun x => ?_
    cases x with
    | none => trivial
    | some env => exact .bind (.perform fun he => hd (Option.some.inj he)) fun _ => ih

/-! ### The network -/

/-- What is specified of the code of a node holds of what the node has done. -/
theorem spec_actionsOf {Q : List (Action PcbRef Envelope) → Local → Unit → Prop}
    (hpath : Path (Network.Step (nodeStep pids)) (Ensemble.network contents program) log c)
    (h : (program i).Spec (clockEffect pids i) ⟨[], contents⟩ P Q) : P (actionsOf i log) :=
  Prog.Spec.throughout (c := (program i, (⟨[], contents⟩ : Local))) h (actionsOf_path hpath i)

theorem received_append_mail (hpath : Path (Network.Step (nodeStep pids)) (Ensemble.network contents program) log c)
    (j : PcbRef) : Network.received (actionsOf j log) ++ c.mail j = (Network.sentTo j log).map Prod.snd :=
  (Network.mail_eq hpath j).symm.trans (List.nil_append _)

theorem mem_sentTo {e : PcbRef × Envelope} (he : e ∈ Network.sentTo j log) : e.2 ∈ Network.sent j (actionsOf e.1 log) := by
  rw [← sentTo_from]
  exact List.mem_map.mpr ⟨e, List.mem_filter.mpr ⟨he, decide_eq_true rfl⟩, rfl⟩

/-- The messages with the pid of a process are its own. -/
theorem filter_sender (hpath : Path (Network.Step (nodeStep pids)) (Ensemble.network contents program) log c)
    (htable : ∀ i, pids i = i.val ∨ pids i = dummyPid) (hp : pids p = p.val) :
    ((Network.sentTo j log).map Prod.snd).filter (fun env => env.senderPid = p.val) = Network.sent j (actionsOf p log) := by
  rw [← sentTo_from, List.filter_map]
  refine congrArg _ (List.filter_congr fun e he => ?_)
  have hsender : e.2.senderPid = pids e.1 := senderPid_of_path (actionsOf_path hpath e.1) e.2 (mem_sentTo he)
  refine decide_eq_decide.mpr ?_
  rw [hsender]
  constructor
  · intro heq
    rcases htable e.1 with hval | hdummy
    · exact Fin.ext (hval.symm.trans heq)
    · exact absurd (heq.symm.trans hdummy) (Nat.ne_of_lt (Nat.lt_trans p.isLt (by decide)))
  · rintro rfl
    exact hp

theorem Counts.of_prefix (h : Counts num got') (hpre : got <+: got') : Counts num got := by
  obtain ⟨rest, rfl⟩ := hpre
  unfold Counts at h ⊢
  have htake := congrArg (List.take got.length) h
  rw [List.map_append, List.take_left' (List.length_map ..)] at htake
  rw [htake]
  unfold reportsFrom
  rw [← List.map_take, List.take_range, List.length_append, Nat.min_eq_left (Nat.le_add_right _ _)]

/-- A relay among sources that count, to which nobody else sends. -/
theorem piped (hpath : Path (Network.Step (nodeStep pids)) (Ensemble.network contents program) log c)
    (htable : ∀ i, pids i = i.val ∨ pids i = dummyPid) (hpids : ∀ a ∈ r :: sources, pids a = a.val)
    (hsource : ∀ a ∈ sources, (program a).Spec (clockEffect pids a) ⟨[], contents⟩
      (fun es => Counts 0 (Network.sent r es)) fun _ _ _ => True)
    (hrelay : (program r).Spec (clockEffect pids r) ⟨[], contents⟩
      (fun es => Relayed (Network.received es) (Network.sent d es)) fun _ _ _ => True)
    (hothers : ∀ a, a ∉ sources → Avoids r (program a)) :
    Piped sources (Network.received (actionsOf r log))
      ((Network.received (actionsOf d log) ++ c.mail d).filter fun env => env.senderPid = r.val) := by
  have hgot := received_append_mail hpath r
  refine ⟨?_, fun a ha => ?_, fun env henv => ?_⟩
  · rw [received_append_mail hpath d, filter_sender hpath htable (hpids r List.mem_cons_self)]
    exact spec_actionsOf hpath hrelay
  · have hcounts := spec_actionsOf hpath (hsource a ha)
    rw [← filter_sender hpath htable (hpids a (List.mem_cons_of_mem r ha)), ← hgot, List.filter_append] at hcounts
    exact hcounts.of_prefix (List.prefix_append _ _)
  · have hmem : env ∈ (Network.sentTo r log).map Prod.snd := hgot ▸ List.mem_append_left _ henv
    obtain ⟨e, he, rfl⟩ := List.mem_map.mp hmem
    have hsent := mem_sentTo he
    have hsrc : e.1 ∈ sources := by
      by_contra hno
      have hnone := (hothers e.1 hno).sent (actionsOf_path hpath e.1)
      rw [hnone] at hsent
      exact List.not_mem_nil hsent
    exact ⟨e.1, hsrc, (senderPid_of_path (actionsOf_path hpath e.1) e.2 hsent).trans
      (hpids e.1 (List.mem_cons_of_mem r hsrc))⟩

/-! ### The kernel -/

theorem Booted.pids_eq (h : Booted img k) (i : PcbRef) : k.pids i = i.val ∨ k.pids i = dummyPid := h.tableOk i

theorem Booted.pids_of_ready (h : Booted img k) (hp : p ∈ readyProcesses.map Prod.fst) : k.pids p = p.val :=
  h.started.created_iff.mpr (Or.inr hp)

/-- The code of a relay and of its sources, and nobody else sends to the relay. -/
structure Pipeline (sources : List PcbRef) (r d : PcbRef) (program : PcbRef → ClockProc Unit) : Prop where
  source : ∀ a ∈ sources, ∃ command m n, program a = (producer a.val command r m n).code
  relay : ∃ n, program r = (DoorRtos.relay d n).code
  others : ∀ a, a ∉ sources → Avoids r (program a)

theorem Booted.piped (h : Booted img k) (hready : ∀ a ∈ r :: d :: sources, a ∈ readyProcesses.map Prod.fst)
    (hkcd : kcdPid ≠ r) (hpipe : Pipeline sources r d program)
    (hcareful : ∀ a, a ∉ sources → a ≠ r → Careful k.pids a (program a)) {turns : List PcbRef} {s : Ensemble}
    (hok : Along Ensemble.step (fun s _ => s.Sound) (.start k contents program) turns)
    (hs : exec Ensemble.step (.start k contents program) turns = some s) :
    ∃ w, s.Waiting d w ∧
      Piped sources (s.receivedBy r) ((s.receivedBy d ++ w).filter fun env => env.senderPid = r.val) := by
  have hpids : ∀ a ∈ r :: d :: sources, k.pids a = a.val := fun a ha => h.pids_of_ready (hready a ha)
  have hr : k.pids r = r.val := hpids r List.mem_cons_self
  have hd : k.pids d = d.val := hpids d (List.mem_cons_of_mem r List.mem_cons_self)
  have hsource : ∀ contents, ∀ a ∈ sources, (program a).Spec (clockEffect k.pids a) ⟨[], contents⟩
      (fun es => Counts 0 (Network.sent r es)) fun _ _ _ => True := fun contents a ha => by
    obtain ⟨command, m, n, hprogram⟩ := hpipe.source a ha
    rw [hprogram]
    exact (spec_code.mpr (spec_producer hkcd _ m n)).imp (fun _ h => h hr) fun _ _ _ h => h
  have hrelay : ∀ contents, (program r).Spec (clockEffect k.pids r) ⟨[], contents⟩
      (fun es => Relayed (Network.received es) (Network.sent d es)) fun _ _ _ => True := fun contents => by
    obtain ⟨n, hprogram⟩ := hpipe.relay
    rw [hprogram]
    exact (spec_code.mpr (spec_relay n)).imp (fun _ h => h hd) fun _ _ _ h => h
  have hall : ∀ a, Careful k.pids a (program a) := fun a => by
    by_cases ha : a ∈ sources
    · exact fun contents => (hsource contents a ha).imp (fun _ _ => trivial) fun _ _ _ h => h
    · by_cases har : a = r
      · rw [har]
        exact fun contents => (hrelay contents).imp (fun _ _ => trivial) fun _ _ _ h => h
      · exact hcareful a ha har
  obtain ⟨log, c, hfollows⟩ := (Ensemble.start_follows h contents program hall).run hok hs
  have hshows := hfollows.shows
  refine ⟨c.mail d, hshows.waiting d, ?_⟩
  rw [hshows.received r, hshows.received d]
  refine DoorRtos.piped hfollows.path h.pids_eq (fun a ha => hpids a ?_) (hsource contents) (hrelay contents) hpipe.others
  exact (List.mem_cons.mp ha).elim (fun he => he ▸ List.mem_cons_self) fun ha =>
    List.mem_cons_of_mem r (List.mem_cons_of_mem d ha)

end

/-! ### Processes for a run -/

/-- A process that receives `n` messages. -/
def receiver : Nat → Proc Unit
  | 0 => return ()
  | n + 1 => do
    let _ ← receiveMessage
    receiver n

/-- The keyboard process, as far as it sends a command and receives the registrations. -/
def commander (q : PcbRef) (command : Char) : Proc Unit := do
  let p ← requestMemoryBlock
  store p (.data 0) command.toNat
  sendMessage q p
  releaseProcessor
  receiver 4

/-- The processes of the stress test, with a keyboard process that sends a command to one of them. -/
def stressPrograms (q : PcbRef) (command : Char) (p : PcbRef) : ClockProc Unit :=
  if p = processA1Pid then (processA1 1 2).code
  else if p = processA2Pid then (processA2 1 2).code
  else if p = processA3Pid then (processA3 1 2).code
  else if p = processB1Pid then (processB1 2).code
  else if p = processB2Pid then (processB2 2).code
  else if p = kcdPid then (commander q command).code
  else (receiver 1).code

/-- The turns until the first report of process `a` has come through the relay `b` to process `c`. -/
def stressTurns (a b c : PcbRef) : List PcbRef :=
  [wcPid, crtPid, setPrioPid, ⟨1, by decide⟩, ⟨2, by decide⟩, ⟨3, by decide⟩] ++
    List.replicate 10 processA1Pid ++ [processB1Pid, processC1Pid] ++
    List.replicate 10 processA2Pid ++ [processB2Pid, processC2Pid] ++ List.replicate 10 processA3Pid ++
    List.replicate 6 kcdPid ++ List.replicate 14 a ++ List.replicate 8 kcdPid ++ List.replicate 5 b ++
    List.replicate 11 a ++ List.replicate 2 c

section
variable {pids : PcbRef → Nat} {p q r d : PcbRef} {l : Local} {code : Proc Unit}

theorem spec_receiver (n : Nat) : (receiver n).Spec (effect pids p) l (fun _ => True) fun _ _ _ => True := by
  induction n generalizing l with
  | zero => exact .ret trivial trivial
  | succ n ih => exact .bind (spec_receiveMessage.imp (fun _ _ => trivial) fun _ _ _ _ => trivial) fun _ _ _ _ => ih

theorem spec_commander (q : PcbRef) (command : Char) : (commander q command).Spec (effect pids p) l (fun _ => True)
    fun _ _ _ => True := by
  refine Spec.quietly spec_requestMemoryBlock unseen_const (fun _ _ => unseen_const) trivial ?_
  rintro _ b ⟨-, content, rfl⟩
  refine Spec.quietly (spec_store (by simp) (by decide)) unseen_const (fun _ _ => unseen_const) trivial ?_
  rintro _ _ rfl
  refine .bind ((spec_sendMessage (by simp [Local.store_eq])).imp (fun _ _ => trivial) fun _ _ _ h => h) fun _ _ _ _ => ?_
  exact Spec.quietly spec_releaseProcessor unseen_const (fun _ _ => unseen_const) trivial fun _ _ _ => spec_receiver 4

theorem avoids_receiver (q : PcbRef) (n : Nat) : Avoids q (receiver n).code := by
  induction n with
  | zero => trivial
  | succ n ih => exact ⟨nofun, fun _ => ih⟩

theorem avoids_commander (command : Char) (h : r ≠ q) : Avoids q (commander r command).code :=
  ⟨nofun, fun _ => ⟨nofun, fun _ => ⟨fun he => h (Option.some.inj he), fun _ => ⟨nofun, fun _ => avoids_receiver q 4⟩⟩⟩⟩

theorem producer_careful (hkcd : kcdPid ≠ d) (currentPid : Nat) (command : Char) (m n : Nat) :
    Careful pids p (producer currentPid command d m n).code :=
  careful_of_spec fun _ => (spec_producer hkcd currentPid m n).imp (fun _ _ => trivial) fun _ _ _ h => h

theorem relay_careful (d : PcbRef) (n : Nat) : Careful pids p (relay d n).code :=
  careful_of_spec fun _ => (spec_relay n).imp (fun _ _ => trivial) fun _ _ _ h => h

theorem stressPrograms_careful (pids : PcbRef → Nat) (q : PcbRef) (command : Char) (p : PcbRef) :
    Careful pids p (stressPrograms q command p) := by
  unfold stressPrograms
  split_ifs
  · exact producer_careful (by decide) _ _ _ _
  · exact producer_careful (by decide) _ _ _ _
  · exact producer_careful (by decide) _ _ _ _
  · exact relay_careful _ _
  · exact relay_careful _ _
  · exact careful_of_spec fun _ => spec_commander q command
  · exact careful_of_spec fun _ => spec_receiver 1

end

/-- In every run in which `process_a1` counts and nobody else sends to `process_b1`, the reports reach `process_c1`
    through `process_b1` in the order of their numbers, and unchanged. -/
theorem reports_through_b1 (img : Layout) (contents : Addr → Content) (program : PcbRef → ClockProc Unit)
    (hpipe : Pipeline [processA1Pid] processB1Pid processC1Pid program) :
    ∃ k, boot img = .switched k ∧ ∀ turns s,
      (∀ p, p ∉ [processA1Pid] → p ≠ processB1Pid → Careful k.pids p (program p)) →
      Along Ensemble.step (fun s _ => s.Sound) (.start k contents program) turns →
      exec Ensemble.step (.start k contents program) turns = some s →
      ∃ w, s.Waiting processC1Pid w ∧ Piped [processA1Pid] (s.receivedBy processB1Pid)
        ((s.receivedBy processC1Pid ++ w).filter fun env => env.senderPid = processB1Pid.val) := by
  obtain ⟨k, hboot, h⟩ := boot_spec img
  exact ⟨k, hboot, fun turns s hcareful hok hs => h.piped (by decide) (by decide) hpipe hcareful hok hs⟩

/-- `process_a1` is sent a command, and its first report comes to `process_c1`. -/
theorem reports_through_b1_first :
    ∃ k s w, boot rtosMap = .switched k ∧
      exec Ensemble.step (.start k (fun _ => ⟨0, fun _ => 0⟩) (stressPrograms processA1Pid 'X'))
        (stressTurns processA1Pid processB1Pid processC1Pid) = some s ∧
      (s.receivedBy processC1Pid).map Envelope.report = [some 0] ∧ s.Waiting processC1Pid w ∧
      Piped [processA1Pid] (s.receivedBy processB1Pid)
        ((s.receivedBy processC1Pid ++ w).filter fun env => env.senderPid = processB1Pid.val) := by
  have hpipe : Pipeline [processA1Pid] processB1Pid processC1Pid (stressPrograms processA1Pid 'X') := by
    refine ⟨fun a ha => ?_, ⟨2, rfl⟩, fun a ha => ?_⟩
    · rw [List.mem_singleton.mp ha]
      exact ⟨'X', 1, 2, rfl⟩
    · unfold stressPrograms
      rw [if_neg fun he => ha (List.mem_singleton.mpr he)]
      split_ifs
      · exact producer_avoids (by decide) (by decide) _ _ _ _
      · exact producer_avoids (by decide) (by decide) _ _ _ _
      · exact relay_avoids (by decide) _
      · exact relay_avoids (by decide) _
      · exact avoids_commander 'X' (by decide)
      · exact avoids_receiver _ 1
  obtain ⟨k, hboot, h⟩ := reports_through_b1 rtosMap (fun _ => ⟨0, fun _ => 0⟩) (stressPrograms processA1Pid 'X') hpipe
  have hrun : (((boot rtosMap).kernel?.bind fun k => exec (guarded Ensemble.step fun s _ => s.Sound)
      (.start k (fun _ => ⟨0, fun _ => 0⟩) (stressPrograms processA1Pid 'X'))
      (stressTurns processA1Pid processB1Pid processC1Pid)).any fun s =>
        decide ((s.receivedBy processC1Pid).map Envelope.report = [some 0])) = true := by decide +kernel
  rw [hboot] at hrun
  obtain ⟨s, hs, hreport⟩ := Option.any_eq_true _ _ |>.mp hrun
  obtain ⟨hok, hs⟩ := along_of_guarded hs
  obtain ⟨w, hw, hpiped⟩ := h _ s (fun p _ _ => stressPrograms_careful k.pids processA1Pid 'X' p) hok hs
  exact ⟨k, s, w, hboot, hs, of_decide_eq_true hreport, hw, hpiped⟩

/-- In every run in which `process_a2` and `process_a3` count and nobody else sends to `process_b2`, their reports reach
    `process_c2` through `process_b2`, those of each in the order of their numbers, and unchanged. -/
theorem reports_merged_by_b2 (img : Layout) (contents : Addr → Content) (program : PcbRef → ClockProc Unit)
    (hpipe : Pipeline [processA2Pid, processA3Pid] processB2Pid processC2Pid program) :
    ∃ k, boot img = .switched k ∧ ∀ turns s,
      (∀ p, p ∉ [processA2Pid, processA3Pid] → p ≠ processB2Pid → Careful k.pids p (program p)) →
      Along Ensemble.step (fun s _ => s.Sound) (.start k contents program) turns →
      exec Ensemble.step (.start k contents program) turns = some s →
      ∃ w, s.Waiting processC2Pid w ∧ Piped [processA2Pid, processA3Pid] (s.receivedBy processB2Pid)
        ((s.receivedBy processC2Pid ++ w).filter fun env => env.senderPid = processB2Pid.val) := by
  obtain ⟨k, hboot, h⟩ := boot_spec img
  exact ⟨k, hboot, fun turns s hcareful hok hs => h.piped (by decide) (by decide) hpipe hcareful hok hs⟩

/-- `process_a2` is sent a command, and its first report comes to `process_c2`. -/
theorem reports_merged_by_b2_first :
    ∃ k s w, boot rtosMap = .switched k ∧
      exec Ensemble.step (.start k (fun _ => ⟨0, fun _ => 0⟩) (stressPrograms processA2Pid 'Y'))
        (stressTurns processA2Pid processB2Pid processC2Pid) = some s ∧
      (s.receivedBy processC2Pid).map Envelope.report = [some 0] ∧ s.Waiting processC2Pid w ∧
      Piped [processA2Pid, processA3Pid] (s.receivedBy processB2Pid)
        ((s.receivedBy processC2Pid ++ w).filter fun env => env.senderPid = processB2Pid.val) := by
  have hpipe : Pipeline [processA2Pid, processA3Pid] processB2Pid processC2Pid (stressPrograms processA2Pid 'Y') := by
    refine ⟨fun a ha => ?_, ⟨2, rfl⟩, fun a ha => ?_⟩
    · rcases List.mem_pair.mp ha with rfl | rfl
      · exact ⟨'Y', 1, 2, rfl⟩
      · exact ⟨'Z', 1, 2, rfl⟩
    · obtain ⟨h₂, h₃⟩ := not_or.mp (mt List.mem_pair.mpr ha)
      unfold stressPrograms
      rw [if_neg h₂, if_neg h₃]
      split_ifs
      · exact producer_avoids (by decide) (by decide) _ _ _ _
      · exact relay_avoids (by decide) _
      · exact relay_avoids (by decide) _
      · exact avoids_commander 'Y' (by decide)
      · exact avoids_receiver _ 1
  obtain ⟨k, hboot, h⟩ := reports_merged_by_b2 rtosMap (fun _ => ⟨0, fun _ => 0⟩) (stressPrograms processA2Pid 'Y') hpipe
  have hrun : (((boot rtosMap).kernel?.bind fun k => exec (guarded Ensemble.step fun s _ => s.Sound)
      (.start k (fun _ => ⟨0, fun _ => 0⟩) (stressPrograms processA2Pid 'Y'))
      (stressTurns processA2Pid processB2Pid processC2Pid)).any fun s =>
        decide ((s.receivedBy processC2Pid).map Envelope.report = [some 0])) = true := by decide +kernel
  rw [hboot] at hrun
  obtain ⟨s, hs, hreport⟩ := Option.any_eq_true _ _ |>.mp hrun
  obtain ⟨hok, hs⟩ := along_of_guarded hs
  obtain ⟨w, hw, hpiped⟩ := h _ s (fun p _ _ => stressPrograms_careful k.pids processA2Pid 'Y' p) hok hs
  exact ⟨k, s, w, hboot, hs, of_decide_eq_true hreport, hw, hpiped⟩

end DoorRtos
