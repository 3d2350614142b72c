import DoorRtos.Theorems.Consumers

/-! `process_c1` in the course of every run. -/

namespace DoorRtos
open Linked

namespace C1

/-- What `p` holds before a statement. -/
def current : C1Pc → Option Addr → List Addr
  | .take, _ | .wait, _ | .yield, _ => []
  | _, p => p.toList

def own (s : C1) : List Addr := current s.pc s.p ++ s.q.toList ++ s.text.toList

/-- A message that has been received and is still to be examined. -/
def front : C1Pc → Option Addr → List Addr
  | .test, p => p.toList
  | _, _ => []

/-- A message that has been received during a wait. -/
def back : C1Pc → Option Addr → List Addr
  | .sort, p => p.toList
  | _, _ => []

/-- What is known of the variables before a statement. -/
def Stage (w : Consumer) (p text : Option Addr) : C1Pc → Prop
  | .take | .yield => text = none
  | .test | .request | .printRequest | .setType | .release => text = none ∧ p.isSome
  | .printSend => text.isSome ∧ p.isSome
  | .delay => text = none ∧ ∃ a, p = some a ∧ (w.contents a).type = MessType.wakeup10
  | .wait => text = none ∧ w.Awaits []
  | .sort => text = none ∧ ∃ a, p = some a ∧ w.Awaits [a]

/-- The block that a step loses. -/
def dropped (s : C1) : ConsumerEvent → List Addr
  | .grant _ => if s.pc = .request then s.q.toList else []
  | _ => []

/-- A bound on the statements that are left before the next message is taken. -/
def remaining (w : Consumer) (p : Option Addr) : C1Pc → Nat
  | .take | .wait => 0
  | .yield => 1
  | .release => 2
  | .delay => 8
  | .setType => 9
  | .printSend => 10
  | .printRequest => 11
  | .request => 12
  | .test => (p.map fun a => w.cost a - 1).getD 0
  | .sort => (p.map fun a => w.cost a + 1).getD 0

/-- A bound on the steps that are left when no report arrives. -/
def work (s : C1) (L : List Addr) : Nat := remaining s.toConsumer s.p s.pc + s.load L

structure Inv (s : C1) (L lost : List Addr) : Prop where
  working : s.Working s.own (front s.pc s.p) L (back s.pc s.p) lost
  stage : Stage s.toConsumer s.p s.text s.pc

section
variable {s s' : C1} {w w' : Consumer} {p q text : Option Addr} {pc : C1Pc} {L lost : List Addr} {ev : ConsumerEvent}
  {a b : Addr} {data : Nat → UInt8}

theorem Stage.mono (h : Stage w p text pc)
    (hsame : ∀ x ∈ current pc p ++ (w.mailbox ++ w.delayed), w'.contents x = w.contents x)
    (hway : ∀ x ∈ w.mailbox ++ w.delayed, x ∈ w'.mailbox ++ w'.delayed) : Stage w' p text pc := by
  cases pc with
  | delay =>
    obtain ⟨htext, a, rfl, ht⟩ := h
    exact ⟨htext, a, rfl, (congrArg Content.type (hsame a List.mem_cons_self)).trans ht⟩
  | wait =>
    obtain ⟨htext, a, ha, ht⟩ := h
    exact ⟨htext, a, hway a ha, (congrArg Content.type (hsame a ha)).trans ht⟩
  | sort =>
    obtain ⟨htext, b, rfl, a, ha, ht⟩ := h
    refine ⟨htext, b, rfl, a, ?_, (congrArg Content.type (hsame a ha)).trans ht⟩
    exact (List.mem_append.mp ha).elim (List.mem_append_left _) fun hx => List.mem_append_right _ (hway a hx)
  | _ => exact h

theorem remaining_congr (h : w'.contents = w.contents) : remaining w' p pc = remaining w p pc := by
  have hcost : ∀ a, w'.cost a = w.cost a := fun a => Consumer.cost_congr (congrFun h a)
  unfold remaining
  simp only [hcost]

theorem Inv.request (h : s.Inv L lost) (hr : s.request b = some s') :
    Inv s' L (s.dropped (.grant b) ++ lost) ∧ s'.work L < s.work L := by
  obtain ⟨w, pc, p, q, text⟩ := s
  obtain ⟨hw, hstage⟩ := h
  cases pc with
  | request =>
    obtain ⟨w', hg, rfl⟩ := Option.map_eq_some_iff.mp hr
    obtain ⟨rfl, hp⟩ := hstage
    obtain ⟨a, rfl⟩ := Option.isSome_iff_exists.mp hp
    have hlost : Consumer.Working w [a] [] L [] (q.toList ++ lost) := by
      cases q with
      | none => exact hw
      | some c => exact (hw.perm (.swap c a [])).lose
    refine ⟨⟨(hlost.grant hg).perm (.swap a b []), rfl, rfl⟩, ?_⟩
    exact Nat.add_lt_add_of_lt_of_le (show 11 < 12 by decide) (Nat.le_of_eq (Consumer.load_grant hg))
  | printRequest =>
    obtain ⟨w', hg, rfl⟩ := Option.map_eq_some_iff.mp hr
    obtain ⟨rfl, hp⟩ := hstage
    obtain ⟨a, rfl⟩ := Option.isSome_iff_exists.mp hp
    have hown : (b :: own ⟨w, .printRequest, some a, q, none⟩).Perm (own ⟨w', .printSend, some a, q, some b⟩) := by
      simp only [own, Option.toList_none, Option.toList_some, List.append_nil]
      exact (List.perm_append_singleton b _).symm
    refine ⟨⟨(hw.grant hg).perm hown, rfl, rfl⟩, ?_⟩
    exact Nat.add_lt_add_of_lt_of_le (show 10 < 11 by decide) (Nat.le_of_eq (Consumer.load_grant hg))
  | _ => cases hr

theorem Inv.run (h : s.Inv L lost) (hr : s.run = some s') : ∃ L', Inv s' L' lost ∧ s'.work L' < s.work L := by
  obtain ⟨w, pc, p, q, text⟩ := s
  obtain ⟨hw, hstage⟩ := h
  unfold C1.run at hr
  cases pc with
  | take =>
    obtain ⟨⟨o, w'⟩, htake, hr⟩ := Option.bind_eq_some_iff.mp hr
    cases hr
    obtain ⟨a, L', rfl, hw', hload⟩ := hw.take htake
    refine ⟨L', ⟨hw', hstage, rfl⟩, ?_⟩
    have hcost := Consumer.cost_pos (s := w') (a := a)
    have hle : w'.load L' + w'.cost a ≤ w.load L := hload
    exact show w'.cost a - 1 + w'.load L' < 0 + w.load L by omega
  | test =>
    obtain ⟨a, rfl, hr⟩ := Option.bind_eq_some_iff.mp hr
    obtain ⟨rfl, -⟩ := hstage
    dsimp only at hr
    split at hr
    next ht =>
      cases hr
      refine ⟨L, ?_⟩
      have hcost := Consumer.cost_report ht
      split
      · refine ⟨⟨hw.examine ht, rfl, rfl⟩, ?_⟩
        exact show 12 + w.load L < w.cost a - 1 + w.load L by omega
      · refine ⟨⟨hw.examine ht, rfl, rfl⟩, ?_⟩
        exact show 2 + w.load L < w.cost a - 1 + w.load L by omega
    next ht =>
      cases hr
      refine ⟨L, ⟨hw.skip (Consumer.reports_other ht), rfl, rfl⟩, ?_⟩
      have hcost := Consumer.cost_pos (s := w) (a := a)
      exact show 2 + w.load L < w.cost a - 1 + w.load L by omega
  | request => cases hr
  | printRequest => cases hr
  | printSend =>
    obtain ⟨b, rfl, hr⟩ := Option.bind_eq_some_iff.mp hr
    cases hr
    obtain ⟨a, rfl⟩ := Option.isSome_iff_exists.mp hstage.2
    have hown : (own ⟨w, .printSend, some a, q, some b⟩).Perm (b :: own ⟨w, .setType, some a, q, none⟩) :=
      List.perm_append_comm.trans (by simp [own, current])
    refine ⟨L, ⟨((hw.perm hown).store List.mem_cons_self).give, rfl, rfl⟩, ?_⟩
    exact Nat.add_lt_add_of_lt_of_le (show 9 < 10 by decide)
      (Nat.le_of_eq (Consumer.load_store (hw.perm hown) List.mem_cons_self))
  | setType =>
    obtain ⟨a, rfl, hr⟩ := Option.bind_eq_some_iff.mp hr
    cases hr
    refine ⟨L, ⟨hw.store List.mem_cons_self, hstage.1, a, rfl, ?_⟩, ?_⟩
    · dsimp only [Consumer.setType]
      rw [Function.update_self]
    · exact Nat.add_lt_add_of_lt_of_le (show 8 < 9 by decide) (Nat.le_of_eq (Consumer.load_store hw List.mem_cons_self))
  | delay =>
    obtain ⟨a, rfl, hr⟩ := Option.bind_eq_some_iff.mp hr
    cases hr
    obtain ⟨rfl, a, ⟨⟩, ht⟩ := hstage
    refine ⟨L, ⟨hw.delayedSend ht, rfl, a, by simp [Consumer.delayedSend], ht⟩, ?_⟩
    have hload := Consumer.load_delayedSend w a L
    exact show 0 + (w.delayedSend a).load L < 8 + w.load L by omega
  | wait =>
    obtain ⟨⟨a, w'⟩, hrecv, hr⟩ := Option.bind_eq_some_iff.mp hr
    cases hr
    obtain ⟨rfl, hawait⟩ := hstage
    refine ⟨L, ⟨hw.receive hrecv, rfl, a, rfl, hawait.receive hrecv⟩, ?_⟩
    have hload : w'.load L + (w'.cost a + 2) = w.load L := Consumer.load_receive hrecv
    exact show w'.cost a + 1 + w'.load L < 0 + w.load L by omega
  | sort =>
    obtain ⟨a, rfl, hr⟩ := Option.bind_eq_some_iff.mp hr
    obtain ⟨rfl, a, ⟨⟩, hawait⟩ := hstage
    split at hr
    next ht =>
      cases hr
      refine ⟨L, ⟨hw.skip (Consumer.reports_other (by rw [ht]; decide)), rfl, rfl⟩, ?_⟩
      have hcost := Consumer.cost_pos (s := w) (a := a)
      exact show 2 + w.load L < w.cost a + 1 + w.load L by omega
    next ht =>
      cases hr
      refine ⟨a :: L, ⟨hw.enqueue ht, rfl, hawait.enqueue ht⟩, ?_⟩
      have hload : (w.enqueue a).load (a :: L) = w.load L + w.cost a := Consumer.load_enqueue hw ht
      exact show 0 + (w.enqueue a).load (a :: L) < w.cost a + 1 + w.load L by omega
  | release =>
    obtain ⟨a, rfl, hr⟩ := Option.bind_eq_some_iff.mp hr
    cases hr
    exact ⟨L, ⟨hw.give, hstage.1⟩, Nat.add_lt_add_right (show 1 < 2 by decide) (w.load L)⟩
  | yield =>
    cases hr
    exact ⟨L, ⟨hw, hstage⟩, Nat.add_lt_add_right (show 0 < 1 by decide) (w.load L)⟩

theorem Inv.step (h : s.Inv L lost) (hs : s.step ev = some s') :
    ∃ L', Inv s' L' (s.dropped ev ++ lost) ∧ (ev.isReport = false → s'.work L' < s.work L) := by
  refine Consumer.stepOf_keeps (I := Inv) (W := work) h.working
    (fun x hx => List.mem_append_left _ (List.mem_append_left _ hx))
    (fun w hsame hway => h.stage.mono hsame hway) (fun w hsame => remaining_congr hsame) (fun w hw hstage => ⟨hw, hstage⟩)
    (fun _ => rfl) rfl ⟨rfl, fun _ _ => rfl⟩ (fun b hr => h.request hr) (fun hr => h.run hr) hs

theorem Inv.start (messNext : Links Addr) (contents : Addr → Content) : (start messNext contents).Inv [] [] where
  working := .start messNext contents
  stage := rfl

/-- The consumer stops only when there is nothing left to examine, or when it gets no block. -/
theorem Inv.rest (h : s.Inv L lost) (hwake : s.expire = none) (hrun : s.run = none) :
    s.examined = s.arrived ∨ s.pc = .request ∨ s.pc = .printRequest := by
  obtain ⟨w, pc, p, q, text⟩ := s
  obtain ⟨hw, hstage⟩ := h
  unfold C1.run at hrun
  cases pc with
  | take =>
    cases htake : w.take with
    | none => exact Or.inl (hw.take_eq_none htake)
    | some r =>
      simp only [htake] at hrun
      cases hrun
  | test =>
    obtain ⟨-, hp⟩ := hstage
    obtain ⟨a, rfl⟩ := Option.isSome_iff_exists.mp hp
    dsimp only [Option.bind_eq_bind, Option.bind_some] at hrun
    split at hrun <;> cases hrun
  | request => exact Or.inr (Or.inl rfl)
  | printRequest => exact Or.inr (Or.inr rfl)
  | printSend =>
    obtain ⟨b, rfl⟩ := Option.isSome_iff_exists.mp hstage.1
    cases hrun
  | delay =>
    obtain ⟨-, a, rfl, -⟩ := hstage
    cases hrun
  | wait =>
    cases hr : w.receive with
    | none => exact (hstage.2.not_stuck hr hwake).elim
    | some r =>
      simp only [hr] at hrun
      cases hrun
  | sort =>
    obtain ⟨-, a, rfl, -⟩ := hstage
    dsimp only [Option.bind_eq_bind, Option.bind_some] at hrun
    split at hrun <;> cases hrun
  | yield => cases hrun
  | _ =>
    obtain ⟨a, rfl⟩ := Option.isSome_iff_exists.mp hstage.2
    cases hrun

/-! ### The blocks that are lost -/

/-- A block is in `q` as soon as a report divisible by 20 has been examined, and what it leads to has begun. -/
def Tally (q : Option Addr) (examined : List Report) : C1Pc → Prop
  | .request => ∃ l r, examined = l ++ [r] ∧ r.Twentieth ∧ (q = none ↔ ∀ x ∈ l, ¬x.Twentieth)
  | _ => q = none ↔ ∀ x ∈ examined, ¬x.Twentieth

/-- When a block is requested for a report divisible by 20, no report examined before it was. -/
def Spares (s : C1) (ev : ConsumerEvent) : Prop :=
  ∀ b, ev = .grant b → s.pc = .request → ∀ x ∈ s.examined.dropLast, ¬x.Twentieth

theorem tally_request (h : s.request b = some s') (ht : Tally s.q s.examined s.pc) : Tally s'.q s'.examined s'.pc := by
  obtain ⟨w, pc, p, q, text⟩ := s
  cases pc with
  | request =>
    obtain ⟨w', hg, rfl⟩ := Option.map_eq_some_iff.mp h
    obtain ⟨l, r, hl, hr, -⟩ := ht
    have hmem : r ∈ w'.examined := by
      rw [Consumer.grant_examined hg, hl]
      exact List.mem_append_right l List.mem_cons_self
    exact ⟨fun hn => absurd hn (Option.some_ne_none b), fun hall => absurd hr (hall r hmem)⟩
  | printRequest =>
    obtain ⟨w', hg, rfl⟩ := Option.map_eq_some_iff.mp h
    show q = none ↔ ∀ x ∈ w'.examined, ¬x.Twentieth
    rw [Consumer.grant_examined hg]
    exact ht
  | _ => cases h

theorem tally_run (h : s.run = some s') (ht : Tally s.q s.examined s.pc) : Tally s'.q s'.examined s'.pc := by
  obtain ⟨w, pc, p, q, text⟩ := s
  unfold C1.run at h
  cases pc with
  | take =>
    obtain ⟨r, htake, h⟩ := Option.bind_eq_some_iff.mp h
    cases h
    show q = none ↔ ∀ x ∈ r.2.examined, ¬x.Twentieth
    rw [Consumer.take_examined htake]
    exact ht
  | test =>
    obtain ⟨a, rfl, h⟩ := Option.bind_eq_some_iff.mp h
    split at h
    · cases h
      by_cases hnum : wordAt (w.contents a).data % 20 = 0
      · rw [if_pos hnum]
        exact ⟨w.examined, _, rfl, hnum, ht⟩
      · rw [if_neg hnum]
        refine ht.trans ⟨fun hall x hx => ?_, fun hall x hx => hall x (List.mem_append_left _ hx)⟩
        rcases List.mem_append.mp hx with hx | hx
        · exact hall x hx
        · rw [List.mem_singleton.mp hx]
          exact hnum
    · cases h
      exact ht
  | request => cases h
  | printRequest => cases h
  | wait =>
    obtain ⟨r, hr, h⟩ := Option.bind_eq_some_iff.mp h
    cases h
    show q = none ↔ ∀ x ∈ r.2.examined, ¬x.Twentieth
    rw [Consumer.receive_examined hr]
    exact ht
  | sort =>
    obtain ⟨a, rfl, h⟩ := Option.bind_eq_some_iff.mp h
    split at h <;> cases h <;> exact ht
  | yield =>
    cases h
    exact ht
  | _ =>
    obtain ⟨a, rfl, h⟩ := Option.bind_eq_some_iff.mp h
    cases h
    exact ht

theorem tally_step (hs : s.step ev = some s') (ht : Tally s.q s.examined s.pc) : Tally s'.q s'.examined s'.pc := by
  rcases Consumer.stepOf_examined hs with ⟨w, hexamined, rfl⟩ | ⟨b, -, hr⟩ | ⟨-, hr⟩
  · dsimp only
    rwa [hexamined]
  · exact tally_request hr ht
  · exact tally_run hr ht

theorem mem_pointers_of_own (ha : a ∈ s.own) : some a ∈ s.pointers := by
  have hcur : ∀ x ∈ current s.pc s.p, x ∈ s.p.toList := fun x hx => by
    unfold current at hx
    split at hx
    all_goals first | exact absurd hx List.not_mem_nil | exact hx
  refine Consumer.mem_pointers.mpr ?_
  rcases List.mem_append.mp ha with ha | ha
  · exact List.mem_append_left _ ((List.mem_append.mp ha).elim (fun hc => List.mem_append_left _ (hcur a hc))
      (List.mem_append_right _))
  · exact List.mem_append_right _ ha

theorem accounted_iff (messNext : Links Addr) (contents : Addr → Content) (es : List ConsumerEvent) :
    Runs.Throughout step (fun s => s.Accounted s.pointers) (start messNext contents) es ↔
      Runs.Along step Spares (start messNext contents) es := by
  refine Runs.throughout_iff_along (I := fun s => (∃ L, s.Inv L []) ∧ Tally s.q s.examined s.pc) (fun s h => ?_)
    (fun s ev t h hok hs => ?_) (fun s ev t h hbad hs => ?_) ⟨⟨[], .start messNext contents⟩, ?_⟩
  · obtain ⟨⟨L, h⟩, -⟩ := h
    exact h.working.accounted fun a => mem_pointers_of_own
  · obtain ⟨⟨L, h⟩, ht⟩ := h
    obtain ⟨L', h', -⟩ := h.step hs
    refine ⟨⟨L', ?_⟩, tally_step hs ht⟩
    have hnone : s.dropped ev = [] := by
      cases ev with
      | grant b =>
        unfold dropped
        dsimp only
        split
        next hpc =>
          rw [hpc] at ht
          obtain ⟨l, r, hl, -, hq⟩ := ht
          have hfirst := hok b rfl hpc
          rw [hl, List.dropLast_concat] at hfirst
          rw [hq.mpr hfirst]
          rfl
        next => rfl
      | _ => rfl
    rwa [hnone] at h'
  · obtain ⟨⟨L, h⟩, ht⟩ := h
    obtain ⟨L', h', -⟩ := h.step hs
    simp only [Spares, not_forall] at hbad
    obtain ⟨b, rfl, hpc, x, hx, htwentieth⟩ := hbad
    obtain ⟨w, pc, p, q, text⟩ := s
    cases hpc
    obtain ⟨l, r, hl, -, hq⟩ := ht
    dsimp only at hl hx
    rw [hl, List.dropLast_concat] at hx
    obtain ⟨c, rfl⟩ := Option.ne_none_iff_exists'.mp fun hnone => htwentieth (hq.mp hnone x hx)
    obtain ⟨w', -, rfl⟩ := Option.map_eq_some_iff.mp hs
    exact h'.working.not_accounted (fun a => Consumer.mem_pointers.mp) (a := c) List.mem_cons_self
  · exact ⟨fun _ x hx => absurd hx List.not_mem_nil, fun _ => rfl⟩

end
end C1

end DoorRtos
