import DoorRtos.Theorems.Consumers

/-! `process_c2` in the course of every run. -/

namespace DoorRtos
open Linked

namespace C2

/-- What `p` holds before a statement. It keeps its block when it is not released. -/
def current : C2Pc → Bool → Option Addr → List Addr
  | .request, _, _ | .take, true, _ => []
  | _, _, p => p.toList

/-- What `q` holds before a statement. -/
def waiting : C2Pc → Option Addr → List Addr
  | .request, _ | .wait, _ => []
  | _, q => q.toList

def own (s : C2) : List Addr := current s.pc s.free s.p ++ waiting s.pc s.q ++ s.text.toList

/-- A message that has been received and is still to be examined. -/
def front : C2Pc → Option Addr → List Addr
  | .test, p => p.toList
  | _, _ => []

/-- A message that has been received during a wait. -/
def back : C2Pc → Option Addr → List Addr
  | .sort, q => q.toList
  | _, _ => []

/-- What is known of the variables before a statement. -/
def Stage (w : Consumer) (p q text : Option Addr) (free : Bool) : C2Pc → Prop
  | .request => text = none ∧ p = none
  | .take => text = none ∧ q.isSome
  | .test => text = none ∧ q.isSome ∧ p.isSome ∧ free = true
  | .printRequest | .setType | .release => text = none ∧ q.isSome ∧ p.isSome
  | .printSend => text.isSome ∧ q.isSome ∧ p.isSome
  | .delay => text = none ∧ p.isSome ∧ free = false ∧ ∃ a, q = some a ∧ (w.contents a).type = MessType.wakeup10
  | .wait => text = none ∧ p.isSome ∧ free = false ∧ w.Awaits []
  | .sort => text = none ∧ p.isSome ∧ free = false ∧ ∃ a, q = some a ∧ w.Awaits [a]

/-- The block that a step loses. -/
def dropped (s : C2) : ConsumerEvent → List Addr
  | .run => if s.pc = .take ∧ s.free = false then s.p.toList else []
  | _ => []

/-- A bound on the statements that are left before the next message is taken. -/
def remaining (w : Consumer) (p q : Option Addr) : C2Pc → Nat
  | .take | .wait => 0
  | .request => 1
  | .release => 2
  | .delay => 8
  | .setType => 9
  | .printSend => 10
  | .printRequest => 11
  | .test => (p.map fun a => w.cost a - 1).getD 0
  | .sort => (q.map fun a => w.cost a + 1).getD 0

/-- A bound on the steps that are left when no report arrives. -/
def work (s : C2) (L : List Addr) : Nat := remaining s.toConsumer s.p s.q s.pc + s.load L

structure Inv (s : C2) (L lost : List Addr) : Prop where
  working : s.Working s.own (front s.pc s.p) L (back s.pc s.q) lost
  stage : Stage s.toConsumer s.p s.q s.text s.free s.pc

section
variable {s s' : C2} {w w' : Consumer} {p q text : Option Addr} {free : Bool} {pc : C2Pc} {L lost : List Addr}
  {ev : ConsumerEvent} {a b : Addr} {data : Nat → UInt8}

theorem Stage.mono (h : Stage w p q text free pc)
    (hsame : ∀ x ∈ waiting pc q ++ (w.mailbox ++ w.delayed), w'.contents x = w.contents x)
    (hway : ∀ x ∈ w.mailbox ++ w.delayed, x ∈ w'.mailbox ++ w'.delayed) : Stage w' p q text free pc := by
  cases pc with
  | delay =>
    obtain ⟨htext, hp, hfree, a, rfl, ht⟩ := h
    exact ⟨htext, hp, hfree, a, rfl, (congrArg Content.type (hsame a List.mem_cons_self)).trans ht⟩
  | wait =>
    obtain ⟨htext, hp, hfree, a, ha, ht⟩ := h
    exact ⟨htext, hp, hfree, a, hway a ha, (congrArg Content.type (hsame a ha)).trans ht⟩
  | sort =>
    obtain ⟨htext, hp, hfree, b, rfl, a, ha, ht⟩ := h
    refine ⟨htext, hp, hfree, b, rfl, a, ?_, (congrArg Content.type (hsame a ha)).trans ht⟩
    exact (List.mem_append.mp ha).elim (List.mem_append_left _) fun hx => List.mem_append_right _ (hway a hx)
  | _ => exact h

theorem remaining_congr (h : w'.contents = w.contents) : remaining w' p q pc = remaining w p q pc := by
  have hcost : ∀ a, w'.cost a = w.cost a := fun a => Consumer.cost_congr (congrFun h a)
  unfold remaining
  simp only [hcost]

theorem Inv.request (h : s.Inv L lost) (hr : s.request b = some s') : Inv s' L lost ∧ s'.work L < s.work L := by
  obtain ⟨w, pc, p, q, text, free⟩ := s
  obtain ⟨hw, hstage⟩ := h
  cases pc with
  | request =>
    obtain ⟨w', hg, rfl⟩ := Option.map_eq_some_iff.mp hr
    obtain ⟨rfl, rfl⟩ := hstage
    have hload := Nat.add_lt_add_of_lt_of_le (show 0 < 1 by decide) (Nat.le_of_eq (Consumer.load_grant (L := L) hg))
    cases free <;> exact ⟨⟨hw.grant hg, rfl, rfl⟩, hload⟩
  | printRequest =>
    obtain ⟨w', hg, rfl⟩ := Option.map_eq_some_iff.mp hr
    obtain ⟨rfl, hq, hp⟩ := hstage
    have hown : (b :: own ⟨w, .printRequest, p, q, none, free⟩).Perm (own ⟨w', .printSend, p, q, some b, free⟩) := by
      simp only [own, Option.toList_none, Option.toList_some, List.append_nil]
      exact (List.perm_append_singleton b _).symm
    refine ⟨⟨(hw.grant hg).perm hown, rfl, hq, hp⟩, ?_⟩
    exact Nat.add_lt_add_of_lt_of_le (show 10 < 11 by decide) (Nat.le_of_eq (Consumer.load_grant hg))
  | _ => cases hr

/-- `p` takes a message, and loses the block of a report that was not released. -/
theorem Inv.take (h : Inv ⟨w, .take, p, q, text, free⟩ L lost) {r : Option Addr × Consumer} (ht : w.take = some r) :
    ∃ a L', r.1 = some a ∧ r.2.Working (a :: (waiting .take q ++ text.toList)) [a] L' []
      (dropped ⟨w, .take, p, q, text, free⟩ .run ++ lost) ∧ r.2.load L' + r.2.cost a ≤ w.load L := by
  have hw := h.working
  cases free with
  | true => exact hw.take ht
  | false =>
    cases p with
    | none => exact hw.take ht
    | some c => exact (Consumer.Working.lose hw).take ht

theorem Inv.run (h : s.Inv L lost) (hr : s.run = some s') :
    ∃ L', Inv s' L' (s.dropped .run ++ lost) ∧ s'.work L' < s.work L := by
  obtain ⟨w, pc, p, q, text, free⟩ := s
  have hwhole := h
  obtain ⟨hw, hstage⟩ := h
  unfold C2.run at hr
  cases pc with
  | request => cases hr
  | take =>
    obtain ⟨⟨o, w'⟩, htake, hr⟩ := Option.bind_eq_some_iff.mp hr
    cases hr
    obtain ⟨a, L', rfl, hw', hload⟩ := hwhole.take htake
    refine ⟨L', ⟨hw', hstage.1, hstage.2, rfl, rfl⟩, ?_⟩
    have hcost := Consumer.cost_pos (s := w') (a := a)
    have hle : w'.load L' + w'.cost a ≤ w.load L := hload
    exact show w'.cost a - 1 + w'.load L' < 0 + w.load L by omega
  | test =>
    obtain ⟨a, rfl, hr⟩ := Option.bind_eq_some_iff.mp hr
    obtain ⟨rfl, hq, -, -⟩ := hstage
    dsimp only at hr
    split at hr
    next ht =>
      cases hr
      refine ⟨L, ?_⟩
      have hcost := Consumer.cost_report ht
      split
      · refine ⟨⟨hw.examine ht, rfl, hq, rfl⟩, ?_⟩
        exact show 11 + w.load L < w.cost a - 1 + w.load L by omega
      · refine ⟨⟨hw.examine ht, rfl, hq, rfl⟩, ?_⟩
        exact show 2 + w.load L < w.cost a - 1 + w.load L by omega
    next ht =>
      cases hr
      refine ⟨L, ⟨hw.skip (Consumer.reports_other ht), rfl, hq, rfl⟩, ?_⟩
      have hcost := Consumer.cost_pos (s := w) (a := a)
      exact show 2 + w.load L < w.cost a - 1 + w.load L by omega
  | printRequest => cases hr
  | printSend =>
    obtain ⟨b, rfl, hr⟩ := Option.bind_eq_some_iff.mp hr
    cases hr
    obtain ⟨-, hq, hp⟩ := hstage
    have hown : (own ⟨w, .printSend, p, q, some b, free⟩).Perm (b :: own ⟨w, .setType, p, q, none, free⟩) :=
      List.perm_append_comm.trans (by simp [own, current, waiting])
    refine ⟨L, ⟨((hw.perm hown).store List.mem_cons_self).give, rfl, hq, hp⟩, ?_⟩
    exact Nat.add_lt_add_of_lt_of_le (show 9 < 10 by decide)
      (Nat.le_of_eq (Consumer.load_store (hw.perm hown) List.mem_cons_self))
  | setType =>
    obtain ⟨a, rfl, hr⟩ := Option.bind_eq_some_iff.mp hr
    cases hr
    obtain ⟨rfl, -, hp⟩ := hstage
    have hmem : a ∈ own ⟨w, .setType, p, some a, none, free⟩ := by simp [own, waiting]
    refine ⟨L, ⟨hw.store hmem, rfl, hp, rfl, a, rfl, ?_⟩, ?_⟩
    · dsimp only [Consumer.setType]
      rw [Function.update_self]
    · exact Nat.add_lt_add_of_lt_of_le (show 8 < 9 by decide) (Nat.le_of_eq (Consumer.load_store hw hmem))
  | delay =>
    obtain ⟨a, rfl, hr⟩ := Option.bind_eq_some_iff.mp hr
    cases hr
    obtain ⟨rfl, hp, rfl, a, ⟨⟩, ht⟩ := hstage
    have hown : (own ⟨w, .delay, p, some a, none, false⟩).Perm (a :: own ⟨w, .wait, p, some a, none, false⟩) := by
      simp only [own, current, waiting, Option.toList_none, Option.toList_some, List.append_nil]
      exact List.perm_append_singleton a _
    refine ⟨L, ⟨(hw.perm hown).delayedSend ht, rfl, hp, rfl, a, by simp [Consumer.delayedSend], ht⟩, ?_⟩
    have hload := Consumer.load_delayedSend w a L
    exact show 0 + (w.delayedSend a).load L < 8 + w.load L by omega
  | wait =>
    obtain ⟨⟨a, w'⟩, hrecv, hr⟩ := Option.bind_eq_some_iff.mp hr
    cases hr
    obtain ⟨rfl, hp, rfl, hawait⟩ := hstage
    have hown : (a :: own ⟨w, .wait, p, q, none, false⟩).Perm (own ⟨w', .sort, p, some a, none, false⟩) := by
      simp only [own, current, waiting, Option.toList_none, Option.toList_some, List.append_nil]
      exact (List.perm_append_singleton a _).symm
    refine ⟨L, ⟨(hw.receive hrecv).perm hown, rfl, hp, rfl, a, rfl, hawait.receive hrecv⟩, ?_⟩
    have hload : w'.load L + (w'.cost a + 2) = w.load L := Consumer.load_receive hrecv
    exact show w'.cost a + 1 + w'.load L < 0 + w.load L by omega
  | sort =>
    obtain ⟨a, rfl, hr⟩ := Option.bind_eq_some_iff.mp hr
    obtain ⟨rfl, hp, rfl, a, ⟨⟩, hawait⟩ := hstage
    split at hr
    next ht =>
      cases hr
      refine ⟨L, ⟨hw.skip (Consumer.reports_other (by rw [ht]; decide)), rfl, rfl, hp⟩, ?_⟩
      have hcost := Consumer.cost_pos (s := w) (a := a)
      exact show 2 + w.load L < w.cost a + 1 + w.load L by omega
    next ht =>
      cases hr
      have hown : (own ⟨w, .sort, p, some a, none, false⟩).Perm (a :: own ⟨w, .wait, p, some a, none, false⟩) := by
        simp only [own, current, waiting, Option.toList_none, Option.toList_some, List.append_nil]
        exact List.perm_append_singleton a _
      refine ⟨a :: L, ⟨(hw.perm hown).enqueue ht, rfl, hp, rfl, hawait.enqueue ht⟩, ?_⟩
      have hload : (w.enqueue a).load (a :: L) = w.load L + w.cost a := Consumer.load_enqueue hw ht
      exact show 0 + (w.enqueue a).load (a :: L) < w.cost a + 1 + w.load L by omega
  | release =>
    cases free with
    | true =>
      obtain ⟨a, rfl, hr⟩ := Option.bind_eq_some_iff.mp hr
      cases hr
      exact ⟨L, ⟨hw.give, hstage.1, hstage.2.1⟩, Nat.add_lt_add_right (show 0 < 2 by decide) (w.load L)⟩
    | false =>
      cases hr
      exact ⟨L, ⟨hw, hstage.1, hstage.2.1⟩, Nat.add_lt_add_right (show 0 < 2 by decide) (w.load L)⟩

theorem Inv.step (h : s.Inv L lost) (hs : s.step ev = some s') :
    ∃ L', Inv s' L' (s.dropped ev ++ lost) ∧ (ev.isReport = false → s'.work L' < s.work L) := by
  refine Consumer.stepOf_keeps (I := Inv) (W := work) h.working
    (fun x hx => List.mem_append_left _ (List.mem_append_right _ hx))
    (fun w hsame hway => h.stage.mono hsame hway) (fun w hsame => remaining_congr hsame) (fun w hw hstage => ⟨hw, hstage⟩)
    (fun _ => rfl) rfl ⟨rfl, fun _ _ => rfl⟩ (fun b hr => h.request hr) (fun hr => h.run hr) hs

theorem Inv.start (messNext : Links Addr) (contents : Addr → Content) : (start messNext contents).Inv [] [] where
  working := .start messNext contents
  stage := ⟨rfl, rfl⟩

/-- The consumer stops only when there is nothing left to examine, or when it gets no block. -/
theorem Inv.rest (h : s.Inv L lost) (hwake : s.expire = none) (hrun : s.run = none) :
    s.examined = s.arrived ∨ s.pc = .request ∨ s.pc = .printRequest := by
  obtain ⟨w, pc, p, q, text, free⟩ := s
  obtain ⟨hw, hstage⟩ := h
  unfold C2.run at hrun
  cases pc with
  | request => exact Or.inr (Or.inl rfl)
  | take =>
    have hworking : w.Working (own ⟨w, .take, p, q, text, free⟩) [] L [] lost := hw
    cases htake : w.take with
    | none => exact Or.inl (hworking.take_eq_none htake)
    | some r =>
      simp only [htake] at hrun
      cases hrun
  | test =>
    obtain ⟨a, rfl⟩ := Option.isSome_iff_exists.mp hstage.2.2.1
    dsimp only [Option.bind_eq_bind, Option.bind_some] at hrun
    split at hrun <;> cases hrun
  | printRequest => exact Or.inr (Or.inr rfl)
  | printSend =>
    obtain ⟨b, rfl⟩ := Option.isSome_iff_exists.mp hstage.1
    cases hrun
  | setType =>
    obtain ⟨a, rfl⟩ := Option.isSome_iff_exists.mp hstage.2.1
    cases hrun
  | delay =>
    obtain ⟨-, -, -, a, rfl, -⟩ := hstage
    cases hrun
  | wait =>
    cases hr : w.receive with
    | none => exact (hstage.2.2.2.not_stuck hr hwake).elim
    | some r =>
      simp only [hr] at hrun
      cases hrun
  | sort =>
    obtain ⟨-, -, -, a, rfl, -⟩ := hstage
    dsimp only [Option.bind_eq_bind, Option.bind_some] at hrun
    split at hrun <;> cases hrun
  | release =>
    obtain ⟨a, rfl⟩ := Option.isSome_iff_exists.mp hstage.2.2
    cases free <;> cases hrun

/-! ### The blocks that are lost -/

/-- Whether a report divisible by 20 has been examined. The first one is never released. -/
def Tally (p : Option Addr) (free : Bool) (examined : List Report) : C2Pc → Prop
  | .request | .test => ∀ x ∈ examined, ¬x.Twentieth
  | .take => (free = true ∨ p = none) ↔ ∀ x ∈ examined, ¬x.Twentieth
  | .release => free = true ↔ ∀ x ∈ examined, ¬x.Twentieth
  | _ => ¬∀ x ∈ examined, ¬x.Twentieth

/-- When the outer loop takes a message, no report examined before was divisible by 20. -/
def Spares (s : C2) (ev : ConsumerEvent) : Prop := ev = .run → s.pc = .take → ∀ x ∈ s.examined, ¬x.Twentieth

theorem tally_request (h : s.request b = some s') (hstage : Stage s.toConsumer s.p s.q s.text s.free s.pc)
    (ht : Tally s.p s.free s.examined s.pc) : Tally s'.p s'.free s'.examined s'.pc := by
  obtain ⟨w, pc, p, q, text, free⟩ := s
  cases pc with
  | request =>
    obtain ⟨w', hg, rfl⟩ := Option.map_eq_some_iff.mp h
    show (free = true ∨ p = none) ↔ ∀ x ∈ w'.examined, ¬x.Twentieth
    rw [Consumer.grant_examined hg]
    exact ⟨fun _ => ht, fun _ => Or.inr hstage.2⟩
  | printRequest =>
    obtain ⟨w', hg, rfl⟩ := Option.map_eq_some_iff.mp h
    show ¬∀ x ∈ w'.examined, ¬x.Twentieth
    rw [Consumer.grant_examined hg]
    exact ht
  | _ => cases h

theorem tally_run (h : s.run = some s') (hok : s.Spares .run) (hstage : Stage s.toConsumer s.p s.q s.text s.free s.pc)
    (ht : Tally s.p s.free s.examined s.pc) : Tally s'.p s'.free s'.examined s'.pc := by
  obtain ⟨w, pc, p, q, text, free⟩ := s
  unfold C2.run at h
  cases pc with
  | take =>
    obtain ⟨r, htake, h⟩ := Option.bind_eq_some_iff.mp h
    cases h
    show ∀ x ∈ r.2.examined, ¬x.Twentieth
    rw [Consumer.take_examined htake]
    exact hok rfl rfl
  | test =>
    obtain ⟨a, rfl, h⟩ := Option.bind_eq_some_iff.mp h
    obtain ⟨-, -, -, rfl⟩ := hstage
    split at h
    · cases h
      by_cases hnum : wordAt (w.contents a).data % 20 = 0
      · rw [if_pos hnum]
        exact fun hall => hall _ (List.mem_append_right _ List.mem_cons_self) hnum
      · rw [if_neg hnum]
        refine ⟨fun _ x hx => ?_, fun _ => rfl⟩
        rcases List.mem_append.mp hx with hx | hx
        · exact ht x hx
        · rw [List.mem_singleton.mp hx]
          exact hnum
    · cases h
      exact ⟨fun _ => ht, fun _ => rfl⟩
  | request => cases h
  | printRequest => cases h
  | wait =>
    obtain ⟨r, hr, h⟩ := Option.bind_eq_some_iff.mp h
    cases h
    show ¬∀ x ∈ r.2.examined, ¬x.Twentieth
    rw [Consumer.receive_examined hr]
    exact ht
  | sort =>
    obtain ⟨a, rfl, h⟩ := Option.bind_eq_some_iff.mp h
    obtain ⟨-, -, rfl, -⟩ := hstage
    split at h
    · cases h
      exact ⟨fun hfree => absurd hfree Bool.false_ne_true, fun hall => absurd hall ht⟩
    · cases h
      exact ht
  | release =>
    cases free with
    | true =>
      obtain ⟨a, rfl, h⟩ := Option.bind_eq_some_iff.mp h
      cases h
      exact ⟨fun _ => ht.mp rfl, fun _ => Or.inl rfl⟩
    | false =>
      cases h
      obtain ⟨a, rfl⟩ := Option.isSome_iff_exists.mp hstage.2.2
      refine ⟨fun hor => ?_, fun hall => Or.inl (ht.mpr hall)⟩
      exact hor.elim (fun hfree => absurd hfree Bool.false_ne_true) fun hnone => absurd hnone (Option.some_ne_none a)
  | _ =>
    obtain ⟨a, rfl, h⟩ := Option.bind_eq_some_iff.mp h
    cases h
    exact ht

theorem tally_step (hs : s.step ev = some s') (hok : s.Spares ev) (hstage : Stage s.toConsumer s.p s.q s.text s.free s.pc)
    (ht : Tally s.p s.free s.examined s.pc) : Tally s'.p s'.free s'.examined s'.pc := by
  rcases Consumer.stepOf_examined hs with ⟨w, hexamined, rfl⟩ | ⟨b, -, hr⟩ | ⟨rfl, hr⟩
  · dsimp only
    rwa [hexamined]
  · exact tally_request hr hstage ht
  · exact tally_run hr hok hstage ht

theorem mem_pointers_of_own (ha : a ∈ s.own) : some a ∈ s.pointers := by
  have hcur : ∀ x ∈ current s.pc s.free s.p, x ∈ s.p.toList := fun x hx => by
    unfold current at hx
    split at hx
    all_goals first | exact absurd hx List.not_mem_nil | exact hx
  have hwait : ∀ x ∈ waiting s.pc s.q, x ∈ s.q.toList := fun x hx => by
    unfold waiting at hx
    split at hx
    all_goals first | exact absurd hx List.not_mem_nil | exact hx
  refine Consumer.mem_pointers.mpr ?_
  rcases List.mem_append.mp ha with ha | ha
  · exact List.mem_append_left _ (List.mem_append.mpr ((List.mem_append.mp ha).imp (hcur a) (hwait a)))
  · exact List.mem_append_right _ ha

theorem accounted_iff (messNext : Links Addr) (contents : Addr → Content) (es : List ConsumerEvent) :
    Runs.Throughout step (fun s => s.Accounted s.pointers) (start messNext contents) es ↔
      Runs.Along step Spares (start messNext contents) es := by
  refine Runs.throughout_iff_along (I := fun s => (∃ L, s.Inv L []) ∧ Tally s.p s.free s.examined s.pc) (fun s h => ?_)
    (fun s ev t h hok hs => ?_) (fun s ev t h hbad hs => ?_)
    ⟨⟨[], .start messNext contents⟩, ?_⟩
  · obtain ⟨⟨L, h⟩, -⟩ := h
    exact h.working.accounted fun a => mem_pointers_of_own
  · obtain ⟨⟨L, h⟩, ht⟩ := h
    obtain ⟨L', h', -⟩ := h.step hs
    refine ⟨⟨L', ?_⟩, tally_step hs hok h.stage ht⟩
    have hnone : s.dropped ev = [] := by
      cases ev with
      | run =>
        unfold dropped
        dsimp only
        split
        next hpc =>
          rw [hpc.1] at ht
          rcases ht.mpr (hok rfl hpc.1) with hfree | hp
          · exact absurd (hfree.symm.trans hpc.2) Bool.true_eq_false.mp
          · rw [hp]
            rfl
        next => rfl
      | _ => rfl
    rwa [hnone] at h'
  · obtain ⟨⟨L, h⟩, ht⟩ := h
    obtain ⟨L', h', -⟩ := h.step hs
    simp only [Spares, Classical.not_imp] at hbad
    obtain ⟨rfl, hpc, hdirty⟩ := hbad
    obtain ⟨w, pc, p, q, text, free⟩ := s
    cases hpc
    have hkept := fun hor => hdirty (ht.mp hor)
    obtain ⟨c, rfl⟩ := Option.ne_none_iff_exists'.mp fun hnone => hkept (Or.inr hnone)
    obtain rfl : free = false := Bool.eq_false_iff.mpr fun hfree => hkept (Or.inl hfree)
    obtain ⟨r, -, hr⟩ := Option.bind_eq_some_iff.mp hs
    cases hr
    exact h'.working.not_accounted (fun a => Consumer.mem_pointers.mp) (a := c) List.mem_cons_self
  · exact fun x hx => absurd hx List.not_mem_nil

end
end C2
end DoorRtos
