import DoorRtos.Consumers
import DoorRtos.Runs
import Mathlib.Algebra.GroupWithZero.Nat

/-! What a consumer of the stress test holds, and where the reports are that it has not examined yet. -/

namespace DoorRtos
open Linked

namespace Consumer

/-- The consumer holds the blocks of `held`: it has obtained them once more than given away, and the other ones as often.
    None of them is on the way to it. -/
structure Ledger (s : Consumer) (held : List Addr) : Prop where
  count : ∀ a, s.obtained.count a = s.given.count a + held.count a
  nodup : (held ++ (s.mailbox ++ s.delayed)).Nodup

/-- The report in an envelope, if there is one. -/
def report? (s : Consumer) (a : Addr) : Option Report :=
  if (s.contents a).type = MessType.countReport then some ⟨a, wordAt (s.contents a).data⟩ else none

/-- The reports among the messages of a list. -/
def reports (s : Consumer) (l : List Addr) : List Report := l.filterMap s.report?

/-- The variables of a consumer hold the blocks of `own`, those of `L` are in its local queue, the newest first, and
    nothing leads to those of `lost`. The messages that it has not examined are those of `front`, then those set aside,
    then those of `back`, and then those of its mailbox. -/
structure Working (s : Consumer) (own front L back lost : List Addr) : Prop where
  queue : Queue.Holds s.messNext s.queue L
  ledger : s.Ledger (own ++ L ++ lost)
  frontOwn : ∀ a ∈ front, a ∈ own
  backOwn : ∀ a ∈ back, a ∈ own
  aside : ∀ a ∈ L, (s.contents a).type = MessType.countReport
  delayed : ∀ a ∈ s.delayed, (s.contents a).type = MessType.wakeup10
  type : ∀ a ∈ front ++ back ++ s.mailbox,
    (s.contents a).type = MessType.countReport ∨ (s.contents a).type = MessType.wakeup10
  order : s.arrived = s.examined ++ s.reports (front ++ L.reverse ++ back ++ s.mailbox)

/-- The message that ends a wait is one of `l` or on the way. -/
def Awaits (s : Consumer) (l : List Addr) : Prop :=
  ∃ a ∈ l ++ (s.mailbox ++ s.delayed), (s.contents a).type = MessType.wakeup10

/-- A bound on the steps that are left for a message, when it has not come to the wait of another one. -/
def cost (s : Consumer) (a : Addr) : Nat := if (s.contents a).type = MessType.countReport then 14 else 4

/-- A bound on the steps that are left for all messages. -/
def load (s : Consumer) (L : List Addr) : Nat :=
  14 * L.length + (s.mailbox.map fun a => s.cost a + 2).sum + 7 * s.delayed.length

section
variable {s s' : Consumer} {held held' own own' front L back lost : List Addr} {a b : Addr}

/-! ### The ledger -/

theorem Ledger.perm (h : s.Ledger held) (hp : held.Perm held') : s.Ledger held' where
  count a := (h.count a).trans (by rw [hp.count_eq])
  nodup := (hp.append_right _).nodup_iff.mp h.nodup

theorem Ledger.fresh (h : s.Ledger held) (hn : ¬s.InUse a) : a ∉ held ++ (s.mailbox ++ s.delayed) := by
  intro hmem
  rcases List.mem_append.mp hmem with hmem | hmem
  · refine hn (Or.inr (Or.inr ?_))
    have hpos := List.count_pos_iff.mpr hmem
    have := h.count a
    omega
  · exact (List.mem_append.mp hmem).elim (fun hm => hn (Or.inl hm)) fun hd => hn (Or.inr (Or.inl hd))

theorem Ledger.obtain (h : s.Ledger held) (hobtained : s'.obtained = s.obtained ++ [a]) (hgiven : s'.given = s.given)
    (hp : (s'.mailbox ++ s'.delayed).Perm (s.mailbox ++ s.delayed)) (hn : a ∉ held ++ (s.mailbox ++ s.delayed)) :
    s'.Ledger (a :: held) where
  count b := by
    have := h.count b
    rw [hobtained, hgiven, List.count_append, List.count_singleton, List.count_cons]
    omega
  nodup := by
    refine List.nodup_cons.mpr ⟨fun hmem => hn ?_, (hp.append_left held).nodup_iff.mpr h.nodup⟩
    exact (hp.append_left held).mem_iff.mp hmem

theorem Ledger.give (h : s.Ledger (a :: held)) (hobtained : s'.obtained = s.obtained) (hgiven : s'.given = s.given ++ [a])
    (hnd : (held ++ (s'.mailbox ++ s'.delayed)).Nodup) : s'.Ledger held where
  count b := by
    have := h.count b
    rw [List.count_cons] at this
    rw [hobtained, hgiven, List.count_append, List.count_singleton]
    omega
  nodup := hnd

/-- Nothing is held twice. -/
theorem Ledger.accounted {pointers : List (Option Addr)} (h : s.Ledger held)
    (href : ∀ a ∈ held, s.References pointers a) : s.Accounted pointers := fun a => by
  have hcount := h.count a
  by_cases ha : a ∈ held
  · have hone := List.count_eq_one_of_mem (List.nodup_append.mp h.nodup).1 ha
    exact Or.inr ⟨by omega, href a ha⟩
  · have hzero := List.count_eq_zero.mpr ha
    exact Or.inl (by omega)

/-- What is held has not been given away. -/
theorem Ledger.not_accounted {pointers : List (Option Addr)} (h : s.Ledger held) (ha : a ∈ held)
    (href : ¬s.References pointers a) : ¬s.Accounted pointers := fun hacc => by
  have hcount := h.count a
  have hpos := List.count_pos_iff.mpr ha
  rcases hacc a with heq | ⟨-, hr⟩
  · omega
  · exact href hr

/-! ### The reports -/

theorem reports_append (l l' : List Addr) : s.reports (l ++ l') = s.reports l ++ s.reports l' := List.filterMap_append

theorem reports_congr {l : List Addr} (h : ∀ a ∈ l, s'.contents a = s.contents a) : s'.reports l = s.reports l :=
  List.filterMap_congr fun a ha => by
    unfold report?
    rw [h a ha]

theorem reports_report (h : (s.contents a).type = MessType.countReport) :
    s.reports [a] = [⟨a, wordAt (s.contents a).data⟩] := by
  have hr : s.report? a = some ⟨a, wordAt (s.contents a).data⟩ := if_pos h
  exact List.filterMap_cons_some hr

theorem reports_other (h : (s.contents a).type ≠ MessType.countReport) : s.reports [a] = [] := by
  have hr : s.report? a = none := if_neg h
  exact List.filterMap_cons_none hr

/-! ### What the operations do -/

theorem arrive_mem {data : Nat → UInt8} {x : Addr} (ha : s.arrive a data = some s') (hx : x ∈ s.mailbox ++ s.delayed) :
    x ∈ s'.mailbox ++ s'.delayed := by
  unfold Consumer.arrive at ha
  split at ha
  · cases ha
  · cases ha
    simp only [List.mem_append] at hx ⊢
    tauto

theorem expire_contents (he : s.expire = some s') : s'.contents = s.contents := by
  unfold Consumer.expire at he
  split at he <;> cases he
  rfl

theorem expire_mem {x : Addr} (he : s.expire = some s') (hx : x ∈ s.mailbox ++ s.delayed) :
    x ∈ s'.mailbox ++ s'.delayed := by
  unfold Consumer.expire at he
  split at he
  · cases he
  next a delayed hd =>
    cases he
    rw [hd] at hx
    simp only [List.mem_append, List.mem_cons] at hx ⊢
    tauto

theorem Awaits.receive {r : Addr × Consumer} (h : s.Awaits []) (hr : s.receive = some r) : r.2.Awaits [r.1] := by
  unfold Consumer.receive at hr
  split at hr
  · cases hr
  next hm =>
    cases hr
    obtain ⟨x, hx, ht⟩ := h
    rw [hm] at hx
    exact ⟨x, hx, ht⟩

/-- It is not one of another type. -/
theorem Awaits.enqueue (h : s.Awaits [a]) (ht : (s.contents a).type ≠ MessType.wakeup10) : (s.enqueue a).Awaits [] := by
  obtain ⟨x, hx, htx⟩ := h
  rcases List.mem_cons.mp hx with rfl | hx
  · exact absurd htx ht
  · exact ⟨x, hx, htx⟩

theorem arrive_examined {data : Nat → UInt8} (ha : s.arrive a data = some s') : s'.examined = s.examined := by
  unfold Consumer.arrive at ha
  split at ha <;> cases ha
  rfl

theorem expire_examined (he : s.expire = some s') : s'.examined = s.examined := by
  unfold Consumer.expire at he
  split at he <;> cases he
  rfl

theorem grant_examined (hg : s.grant b = some s') : s'.examined = s.examined := by
  unfold Consumer.grant at hg
  split at hg <;> cases hg
  rfl

theorem receive_examined {r : Addr × Consumer} (hr : s.receive = some r) : r.2.examined = s.examined := by
  unfold Consumer.receive at hr
  split at hr <;> cases hr
  rfl

theorem take_examined {r : Option Addr × Consumer} (ht : s.take = some r) : r.2.examined = s.examined := by
  unfold Consumer.take at ht
  split at ht
  · obtain ⟨r', hr, rfl⟩ := Option.map_eq_some_iff.mp ht
    exact receive_examined hr
  · obtain ⟨r', -, rfl⟩ := Option.map_eq_some_iff.mp ht
    rfl

/-- What a variable holds is nowhere else. -/
theorem Working.apart (h : s.Working own front L back lost) (ha : a ∈ own) :
    a ∉ L ∧ a ∉ lost ∧ a ∉ s.mailbox ∧ a ∉ s.delayed := by
  have hnd := h.ledger.nodup
  rw [List.append_assoc, List.append_assoc] at hnd
  have hne := (List.nodup_append.mp hnd).2.2 a ha
  exact ⟨fun hm => hne a (by simp [hm]) rfl, fun hm => hne a (by simp [hm]) rfl, fun hm => hne a (by simp [hm]) rfl,
    fun hm => hne a (by simp [hm]) rfl⟩

theorem Working.perm (h : s.Working own front L back lost) (hp : own.Perm own') : s.Working own' front L back lost where
  queue := h.queue
  ledger := h.ledger.perm ((hp.append_right L).append_right lost)
  frontOwn x hx := hp.mem_iff.mp (h.frontOwn x hx)
  backOwn x hx := hp.mem_iff.mp (h.backOwn x hx)
  aside := h.aside
  delayed := h.delayed
  type := h.type
  order := h.order

/-- Stores that the messages on the way do not notice. -/
theorem Working.stores {c : Content} (h : s.Working own front L back lost)
    (ha : a ∉ front ++ L.reverse ++ back ++ s.mailbox)
    (hd : a ∉ s.delayed) : { s with contents := Function.update s.contents a c }.Working own front L back lost := by
  have hsame : ∀ x, x ≠ a → Function.update s.contents a c x = s.contents x := fun x hx => by
    rw [Function.update_of_ne hx]
  have hne : ∀ x ∈ front ++ L.reverse ++ back ++ s.mailbox, x ≠ a := fun x hx he => ha (he ▸ hx)
  refine ⟨h.queue, ⟨h.ledger.count, h.ledger.nodup⟩, h.frontOwn, h.backOwn, fun x hx => ?_, fun x hx => ?_,
    fun x hx => ?_, ?_⟩
  · exact (congrArg Content.type (hsame x (hne x (by simp [hx])))).trans (h.aside x hx)
  · exact (congrArg Content.type (hsame x fun he => hd (he ▸ hx))).trans (h.delayed x hx)
  · have hx' : x ∈ front ++ L.reverse ++ back ++ s.mailbox := by
      simp only [List.mem_append] at hx ⊢
      tauto
    dsimp only
    rw [hsame x (hne x hx')]
    exact h.type x hx
  · exact h.order.trans (congrArg _ (reports_congr fun x hx => hsame x (hne x hx)).symm)

/-- A store to a block that a variable holds, and that is no message to be examined. -/
theorem Working.store {c : Content} (h : s.Working own [] L [] lost) (ha : a ∈ own) :
    { s with contents := Function.update s.contents a c }.Working own [] L [] lost := by
  obtain ⟨hL, -, hmail, hd⟩ := h.apart ha
  exact h.stores (by simp [hL, hmail]) hd

/-- A report arrives in none of the blocks that the consumer knows. -/
theorem Ledger.arrive {data : Nat → UInt8} {x : Addr} (h : s.Ledger held) (ha : s.arrive a data = some s')
    (hx : x ∈ held ++ (s.mailbox ++ s.delayed)) : s'.contents x = s.contents x := by
  unfold Consumer.arrive at ha
  split at ha
  · cases ha
  next hfresh =>
    cases ha
    have hne : x ≠ a := fun he => h.fresh hfresh (he ▸ hx)
    exact Function.update_of_ne hne _ _

theorem Working.arrive {data : Nat → UInt8} (h : s.Working own front L back lost) (ha : s.arrive a data = some s') :
    s'.Working own front L back lost := by
  unfold Consumer.arrive at ha
  split at ha
  · cases ha
  next hfresh =>
    cases ha
    have hn := h.ledger.fresh hfresh
    have hnot : a ∉ front ++ L.reverse ++ back ++ s.mailbox := fun hm => hn (by
      simp only [List.mem_append, List.mem_reverse] at hm ⊢
      rcases hm with ((hm | hm) | hm) | hm
      · exact Or.inl (Or.inl (Or.inl (h.frontOwn a hm)))
      · exact Or.inl (Or.inl (Or.inr hm))
      · exact Or.inl (Or.inl (Or.inl (h.backOwn a hm)))
      · exact Or.inr (Or.inl hm))
    have hw := h.stores (c := ⟨MessType.countReport, data⟩) hnot fun hd => hn (by simp [hd])
    refine ⟨hw.queue, ⟨h.ledger.count, ?_⟩, hw.frontOwn, hw.backOwn, hw.aside, hw.delayed, fun x hx => ?_, ?_⟩
    · have hp : (own ++ L ++ lost ++ (s.mailbox ++ [a] ++ s.delayed)).Perm
          (a :: (own ++ L ++ lost ++ (s.mailbox ++ s.delayed))) := by
        rw [List.append_assoc s.mailbox, ← List.append_assoc, ← List.append_assoc (own ++ L ++ lost)]
        exact List.perm_middle
      exact hp.nodup_iff.mpr (List.nodup_cons.mpr ⟨hn, h.ledger.nodup⟩)
    · dsimp only at hx
      rw [← List.append_assoc] at hx
      rcases List.mem_append.mp hx with hx | hx
      · exact hw.type x hx
      · rw [List.mem_singleton.mp hx]
        exact Or.inl (congrArg Content.type (Function.update_self a _ s.contents))
    · dsimp only
      have hone : Consumer.reports { s with
          contents := Function.update s.contents a ⟨MessType.countReport, data⟩, mailbox := s.mailbox ++ [a],
          arrived := s.arrived ++ [⟨a, wordAt data⟩] } [a] = [⟨a, wordAt data⟩] := by
        rw [reports_report (congrArg Content.type (Function.update_self a _ s.contents))]
        dsimp only
        rw [Function.update_self]
      rw [← List.append_assoc, reports_append, hone, ← List.append_assoc, hw.order]
      rfl

theorem Working.expire (h : s.Working own front L back lost) (he : s.expire = some s') :
    s'.Working own front L back lost := by
  unfold Consumer.expire at he
  split at he
  · cases he
  next a delayed hd =>
    cases he
    have htype := h.delayed a (hd ▸ List.mem_cons_self)
    have hother : s.reports [a] = [] := reports_other (by rw [htype]; decide)
    refine ⟨h.queue, ⟨h.ledger.count, ?_⟩, h.frontOwn, h.backOwn, h.aside, fun x hx => ?_, fun x hx => ?_, ?_⟩
    · have hnd := h.ledger.nodup
      rw [hd] at hnd
      dsimp only
      rwa [List.append_assoc s.mailbox]
    · exact h.delayed x (hd ▸ List.mem_cons_of_mem a hx)
    · dsimp only at hx
      rw [← List.append_assoc] at hx
      rcases List.mem_append.mp hx with hx | hx
      · exact h.type x hx
      · rw [List.mem_singleton.mp hx]
        exact Or.inr htype
    · dsimp only
      rw [← List.append_assoc, reports_append]
      exact h.order.trans (congrArg _ ((List.append_nil _).symm.trans (congrArg _ hother.symm)))

theorem Working.grant (h : s.Working own front L back lost) (hg : s.grant b = some s') :
    s'.Working (b :: own) front L back lost := by
  unfold Consumer.grant at hg
  split at hg
  · cases hg
  next hfresh =>
    cases hg
    exact ⟨h.queue, h.ledger.obtain rfl rfl (.refl _) (h.ledger.fresh hfresh),
      fun x hx => List.mem_cons_of_mem b (h.frontOwn x hx), fun x hx => List.mem_cons_of_mem b (h.backOwn x hx), h.aside,
      h.delayed, h.type, h.order⟩

theorem Working.give (h : s.Working (a :: own) [] L [] lost) : (s.give a).Working own [] L [] lost where
  queue := h.queue
  ledger := h.ledger.give rfl rfl (List.nodup_cons.mp h.ledger.nodup).2
  frontOwn _ hx := absurd hx List.not_mem_nil
  backOwn _ hx := absurd hx List.not_mem_nil
  aside := h.aside
  delayed := h.delayed
  type := h.type
  order := h.order

theorem Working.delayedSend (h : s.Working (a :: own) [] L [] lost) (htype : (s.contents a).type = MessType.wakeup10) :
    (s.delayedSend a).Working own [] L [] lost where
  queue := h.queue
  ledger := h.ledger.give rfl rfl (by
    have hp : (own ++ L ++ lost ++ (s.mailbox ++ (s.delayed ++ [a]))).Perm
        (a :: (own ++ L ++ lost ++ (s.mailbox ++ s.delayed))) := by
      rw [← List.append_assoc s.mailbox, ← List.append_assoc (own ++ L ++ lost)]
      exact List.perm_append_singleton ..
    exact hp.nodup_iff.mpr h.ledger.nodup)
  frontOwn _ hx := absurd hx List.not_mem_nil
  backOwn _ hx := absurd hx List.not_mem_nil
  aside := h.aside
  delayed x hx := (List.mem_append.mp hx).elim (h.delayed x) fun hx => by
    rw [List.mem_singleton.mp hx]
    exact htype
  type := h.type
  order := h.order

theorem cost_report (h : (s.contents a).type = MessType.countReport) : s.cost a = 14 := if_pos h

theorem cost_pos : 3 < s.cost a := by
  unfold cost
  split <;> decide

theorem cost_congr (h : s'.contents a = s.contents a) : s'.cost a = s.cost a := by
  unfold cost
  rw [h]

theorem load_expire (h : s.Working own front L back lost) (he : s.expire = some s') : s'.load L < s.load L := by
  unfold Consumer.expire at he
  split at he
  · cases he
  next a delayed hd =>
    cases he
    have hcost : s.cost a = 4 := if_neg (by rw [h.delayed a (hd ▸ List.mem_cons_self)]; decide)
    show 14 * L.length + ((s.mailbox ++ [a]).map fun a => s.cost a + 2).sum + 7 * delayed.length < s.load L
    unfold load
    rw [hd, List.map_append, List.sum_append, List.map_singleton, List.sum_singleton, List.length_cons, hcost]
    omega

theorem load_grant (hg : s.grant b = some s') : s'.load L = s.load L := by
  unfold Consumer.grant at hg
  split at hg <;> cases hg
  rfl

theorem load_receive {r : Addr × Consumer} (hr : s.receive = some r) : r.2.load L + (r.2.cost r.1 + 2) = s.load L := by
  unfold Consumer.receive at hr
  split at hr
  · cases hr
  next a mailbox hm =>
    cases hr
    show 14 * L.length + (mailbox.map fun a => s.cost a + 2).sum + 7 * s.delayed.length + (s.cost a + 2) = s.load L
    unfold load
    rw [hm, List.map_cons, List.sum_cons]
    omega

theorem load_delayedSend (s : Consumer) (a : Addr) (L : List Addr) : (s.delayedSend a).load L = s.load L + 7 := by
  show 14 * L.length + (s.mailbox.map fun a => s.cost a + 2).sum + 7 * (s.delayed ++ [a]).length = s.load L + 7
  unfold load
  rw [List.length_append, List.length_singleton]
  omega

theorem load_enqueue (h : s.Working own front L [a] lost) (ht : (s.contents a).type ≠ MessType.wakeup10) :
    (s.enqueue a).load (a :: L) = s.load L + s.cost a := by
  have hreport := (h.type a (List.mem_append_left _ (List.mem_append_right front List.mem_cons_self))).resolve_right ht
  show 14 * (a :: L).length + (s.mailbox.map fun a => s.cost a + 2).sum + 7 * s.delayed.length = s.load L + s.cost a
  rw [cost_report hreport, List.length_cons]
  unfold load
  omega

theorem load_store {c : Content} (h : s.Working own front L back lost) (ha : a ∈ own) :
    load { s with contents := Function.update s.contents a c } L = s.load L := by
  have hmail := (h.apart ha).2.2.1
  have hmap : (s.mailbox.map fun x => cost { s with contents := Function.update s.contents a c } x + 2) =
      s.mailbox.map fun x => s.cost x + 2 := List.map_congr_left fun x hx => by
    have hne : x ≠ a := fun he => hmail (he ▸ hx)
    rw [cost_congr (Function.update_of_ne hne c s.contents)]
  unfold load
  dsimp only
  rw [hmap]

theorem Working.receive {r : Addr × Consumer} (h : s.Working own [] L [] lost) (hr : s.receive = some r) :
    r.2.Working (r.1 :: own) [] L [r.1] lost := by
  unfold Consumer.receive at hr
  split at hr
  · cases hr
  next a mailbox hm =>
    cases hr
    have hp : (a :: (own ++ L ++ lost) ++ (mailbox ++ s.delayed)).Perm (own ++ L ++ lost ++ (s.mailbox ++ s.delayed)) := by
      rw [hm]
      exact List.perm_middle.symm
    refine ⟨h.queue, ⟨fun b => ?_, hp.nodup_iff.mpr h.ledger.nodup⟩, fun _ hx => absurd hx List.not_mem_nil,
      fun x hx => ?_, h.aside, h.delayed, fun x hx => ?_, ?_⟩
    · have := h.ledger.count b
      dsimp only
      rw [List.count_append, List.count_singleton, List.cons_append, List.cons_append, List.count_cons]
      omega
    · rw [List.mem_singleton.mp hx]
      exact List.mem_cons_self
    · exact h.type x (by rw [hm]; exact hx)
    · have horder := h.order
      rw [hm, List.append_nil, List.nil_append] at horder
      dsimp only
      rw [List.nil_append, List.append_assoc]
      exact horder

/-- The message just received is the next one to be examined when none is set aside. -/
theorem Working.toFront (h : s.Working own [] [] back lost) : s.Working own back [] [] lost where
  queue := h.queue
  ledger := h.ledger
  frontOwn := h.backOwn
  backOwn _ hx := absurd hx List.not_mem_nil
  aside := h.aside
  delayed := h.delayed
  type := by
    rw [List.append_nil]
    exact h.type
  order := by
    rw [List.reverse_nil, List.append_nil, List.append_nil]
    exact h.order

theorem Working.dequeue {r : Option Addr × Consumer} (h : s.Working own [] (L ++ [a]) [] lost) (hd : s.dequeue = some r) :
    r.1 = some a ∧ r.2.Working (a :: own) [a] L [] lost ∧ r.2.load L + r.2.cost a = s.load (L ++ [a]) := by
  obtain ⟨next, q, hshift, hholds, -⟩ := h.queue.shift (Addr.length_le h.queue.nodup)
  unfold Consumer.dequeue dequeueMessageFIFO at hd
  rw [hshift] at hd
  cases hd
  refine ⟨rfl, ⟨hholds, ?_, fun x hx => ?_, fun _ hx => absurd hx List.not_mem_nil,
    fun x hx => h.aside x (List.mem_append_left _ hx), h.delayed, fun x hx => ?_, ?_⟩, ?_⟩
  · have hp : (own ++ (L ++ [a]) ++ lost).Perm (a :: own ++ L ++ lost) := by
      rw [← List.append_assoc, List.append_assoc (own ++ L)]
      exact List.perm_middle
    exact ⟨(h.ledger.perm hp).count, (h.ledger.perm hp).nodup⟩
  · rw [List.mem_singleton.mp hx]
    exact List.mem_cons_self
  · rcases List.mem_cons.mp hx with rfl | hx
    · exact Or.inl (h.aside x (List.mem_append_right L List.mem_cons_self))
    · exact h.type x hx
  · have horder := h.order
    rw [List.reverse_append] at horder
    exact horder
  · show 14 * L.length + (s.mailbox.map fun x => s.cost x + 2).sum + 7 * s.delayed.length + s.cost a = s.load (L ++ [a])
    rw [cost_report (h.aside a (List.mem_append_right L List.mem_cons_self))]
    unfold load
    rw [List.length_append, List.length_singleton]
    omega

/-- The outer loop goes on with the oldest message. -/
theorem Working.take {r : Option Addr × Consumer} (h : s.Working own [] L [] lost) (ht : s.take = some r) :
    ∃ a L', r.1 = some a ∧ r.2.Working (a :: own) [a] L' [] lost ∧ r.2.load L' + r.2.cost a ≤ s.load L := by
  unfold Consumer.take at ht
  split at ht
  next hempty =>
    obtain rfl : L = [] := h.queue.isEmpty_iff.mp hempty
    obtain ⟨r', hr, rfl⟩ := Option.map_eq_some_iff.mp ht
    exact ⟨r'.1, [], rfl, (h.receive hr).toFront,
      Nat.le_trans (Nat.add_le_add_left (Nat.le_add_right _ 2) _) (Nat.le_of_eq (load_receive hr))⟩
  next hsome =>
    have hne : L ≠ [] := fun hnil => hsome (h.queue.isEmpty_iff.mpr hnil)
    obtain ⟨l, a, rfl⟩ : ∃ l a, L = l ++ [a] := ⟨_, _, (List.dropLast_append_getLast hne).symm⟩
    obtain ⟨hr, hw, hload⟩ := h.dequeue ht
    exact ⟨a, l, hr, hw, Nat.le_of_eq hload⟩

theorem Working.enqueue (h : s.Working (a :: own) [] L [a] lost) (ht : (s.contents a).type ≠ MessType.wakeup10) :
    (s.enqueue a).Working own [] (a :: L) [] lost := by
  have hreport : (s.contents a).type = MessType.countReport :=
    (h.type a (List.mem_append_left _ List.mem_cons_self)).resolve_right ht
  have hp : (a :: own ++ L ++ lost).Perm (own ++ a :: L ++ lost) := by
    simp only [List.cons_append, List.append_assoc]
    exact List.perm_middle.symm
  refine ⟨h.queue.push (h.apart List.mem_cons_self).1, ⟨(h.ledger.perm hp).count, (h.ledger.perm hp).nodup⟩,
    fun _ hx => absurd hx List.not_mem_nil, fun _ hx => absurd hx List.not_mem_nil, fun x hx => ?_, h.delayed,
      fun x hx => ?_, ?_⟩
  · rcases List.mem_cons.mp hx with rfl | hx
    · exact hreport
    · exact h.aside x hx
  · exact h.type x (List.mem_append_right _ hx)
  · have horder := h.order
    rw [List.reverse_cons, List.append_nil]
    exact horder

/-- The test of a report's number. -/
theorem Working.examine (h : s.Working own [a] L [] lost) (ht : (s.contents a).type = MessType.countReport) :
    (s.examine a).Working own [] L [] lost where
  queue := h.queue
  ledger := ⟨h.ledger.count, h.ledger.nodup⟩
  frontOwn _ hx := absurd hx List.not_mem_nil
  backOwn _ hx := absurd hx List.not_mem_nil
  aside := h.aside
  delayed := h.delayed
  type x hx := h.type x (List.mem_append_right _ hx)
  order := by
    have horder := h.order
    rw [List.append_nil, List.append_assoc, reports_append, reports_report ht, ← List.append_assoc] at horder
    rw [List.nil_append, List.append_nil]
    exact horder

/-- A message of another type is not examined. -/
theorem Working.skip (h : s.Working own front L back lost) (hother : s.reports (front ++ back) = []) :
    s.Working own [] L [] lost where
  queue := h.queue
  ledger := h.ledger
  frontOwn _ hx := absurd hx List.not_mem_nil
  backOwn _ hx := absurd hx List.not_mem_nil
  aside := h.aside
  delayed := h.delayed
  type x hx := h.type x (List.mem_append_right _ hx)
  order := by
    have horder := h.order
    rw [reports_append, List.append_eq_nil_iff] at hother
    simp only [reports_append, hother.1, hother.2, List.nil_append, List.append_nil] at horder ⊢
    exact horder

/-- A variable is overwritten that held a block. -/
theorem Working.lose (h : s.Working (a :: own) [] L [] lost) : s.Working own [] L [] (a :: lost) where
  queue := h.queue
  ledger := h.ledger.perm (by
    rw [List.append_assoc, List.cons_append, ← List.append_assoc]
    exact List.perm_middle.symm)
  frontOwn _ hx := absurd hx List.not_mem_nil
  backOwn _ hx := absurd hx List.not_mem_nil
  aside := h.aside
  delayed := h.delayed
  type := h.type
  order := h.order

theorem Working.start (messNext : Links Addr) (contents : Addr → Content) :
    (start messNext contents).Working [] [] [] [] [] where
  queue := Queue.holds_empty messNext
  ledger := ⟨fun _ => rfl, List.nodup_nil⟩
  frontOwn _ hx := absurd hx List.not_mem_nil
  backOwn _ hx := absurd hx List.not_mem_nil
  aside _ hx := absurd hx List.not_mem_nil
  delayed _ hx := absurd hx List.not_mem_nil
  type _ hx := absurd hx List.not_mem_nil
  order := rfl

/-! ### Waiting -/

theorem receive_eq_none (h : s.receive = none) : s.mailbox = [] := by
  unfold Consumer.receive at h
  split at h
  next hm => exact hm
  next => cases h

theorem expire_eq_none (h : s.expire = none) : s.delayed = [] := by
  unfold Consumer.expire at h
  split at h
  next hd => exact hd
  next => cases h

/-- When there is no message to go on with, all reports have been examined. -/
theorem Working.take_eq_none (h : s.Working own [] L [] lost) (ht : s.take = none) : s.examined = s.arrived := by
  unfold Consumer.take at ht
  split at ht
  next hempty =>
    have hL : L = [] := h.queue.isEmpty_iff.mp hempty
    have hmail := receive_eq_none (Option.map_eq_none_iff.mp ht)
    have horder := h.order
    rw [hL, hmail] at horder
    exact (horder.trans (List.append_nil _)).symm
  next hsome =>
    have hne : L ≠ [] := fun hnil => hsome (h.queue.isEmpty_iff.mpr hnil)
    obtain ⟨l, a, rfl⟩ : ∃ l a, L = l ++ [a] := ⟨_, _, (List.dropLast_append_getLast hne).symm⟩
    obtain ⟨next, q, hshift, -⟩ := h.queue.shift (Addr.length_le h.queue.nodup)
    unfold Consumer.dequeue dequeueMessageFIFO at ht
    rw [hshift] at ht
    cases ht

/-- A wait ends. -/
theorem Awaits.not_stuck (h : s.Awaits []) (hr : s.receive = none) (he : s.expire = none) : False := by
  obtain ⟨a, ha, -⟩ := h
  rw [receive_eq_none hr, expire_eq_none he] at ha
  exact absurd ha List.not_mem_nil

/-! ### The references -/

theorem Working.accounted {pointers : List (Option Addr)} (h : s.Working own front L back [])
    (hown : ∀ a ∈ own, some a ∈ pointers) : s.Accounted pointers := by
  refine h.ledger.accounted fun a ha => ?_
  rw [List.append_nil] at ha
  exact (List.mem_append.mp ha).imp (hown a) h.queue.list.reaches_iff.mpr

/-- What is lost is not referenced as long as all variables hold their blocks. -/
theorem Working.not_accounted {pointers : List (Option Addr)} (h : s.Working own front L back lost)
    (hown : ∀ a, some a ∈ pointers → a ∈ own) (ha : a ∈ lost) : ¬s.Accounted pointers := by
  refine h.ledger.not_accounted (List.mem_append_right _ ha) fun hr => ?_
  have hnd := (List.nodup_append.mp h.ledger.nodup).1
  refine (List.nodup_append.mp hnd).2.2 a ?_ a ha rfl
  exact List.mem_append.mpr (hr.imp (hown a) h.queue.list.reaches_iff.mp)

/-! ### A step -/

/-- Of a step only the requests and the statements are left to examine. What arrives changes nothing of what is known:
    `stage` tells the state of the variables, from the contents of the blocks in `seen` and of those on the way, and
    `remaining` bounds the statements that are left for the message at hand. -/
theorem stepOf_keeps {σ : Type} {consumer : σ → Consumer} {put : Consumer → σ → σ} {request : Addr → σ → Option σ}
    {run : σ → Option σ} {I : σ → List Addr → List Addr → Prop} {W : σ → List Addr → Nat}
    {dropped : ConsumerEvent → List Addr} {stage : Consumer → Prop} {remaining : Consumer → Nat} {seen : List Addr}
    {t t' : σ} {ev : ConsumerEvent} (h : (consumer t).Working own front L back lost) (hseen : seen ⊆ own)
    (hmono : ∀ w : Consumer, (∀ x ∈ seen ++ ((consumer t).mailbox ++ (consumer t).delayed),
      w.contents x = (consumer t).contents x) →
      (∀ x ∈ (consumer t).mailbox ++ (consumer t).delayed, x ∈ w.mailbox ++ w.delayed) → stage w)
    (hremaining : ∀ w : Consumer, w.contents = (consumer t).contents → remaining w = remaining (consumer t))
    (hI : ∀ w : Consumer, w.Working own front L back lost → stage w → I (put w t) L lost)
    (hW : ∀ w, W (put w t) L = remaining w + w.load L) (hWt : W t L = remaining (consumer t) + (consumer t).load L)
    (hdropped : dropped .wakeup = [] ∧ ∀ a data, dropped (.report a data) = [])
    (hrequest : ∀ b, request b t = some t' → I t' L (dropped (.grant b) ++ lost) ∧ W t' L < W t L)
    (hrun : run t = some t' → ∃ L', I t' L' (dropped .run ++ lost) ∧ W t' L' < W t L)
    (hs : stepOf consumer put request run t ev = some t') :
    ∃ L', I t' L' (dropped ev ++ lost) ∧ (ev.isReport = false → W t' L' < W t L) := by
  cases ev with
  | report envelope data =>
    obtain ⟨w, ha, rfl⟩ := Option.map_eq_some_iff.mp hs
    have hsame : ∀ x ∈ seen ++ ((consumer t).mailbox ++ (consumer t).delayed), w.contents x = (consumer t).contents x := by
      refine fun x hx => h.ledger.arrive ha ?_
      simp only [List.mem_append] at hx ⊢
      exact hx.imp_left fun hx => Or.inl (Or.inl (hseen hx))
    refine ⟨L, ?_, fun hno => absurd hno Bool.true_eq_false.mp⟩
    rw [hdropped.2]
    exact hI w (h.arrive ha) (hmono w hsame fun x => arrive_mem ha)
  | wakeup =>
    obtain ⟨w, he, rfl⟩ := Option.map_eq_some_iff.mp hs
    have hsame := expire_contents he
    refine ⟨L, ?_, fun _ => ?_⟩
    · rw [hdropped.1]
      exact hI w (h.expire he) (hmono w (fun x _ => congrFun hsame x) fun x => expire_mem he)
    · rw [hW, hWt, hremaining w hsame]
      exact Nat.add_lt_add_left (load_expire h he) _
  | grant block => exact ⟨L, (hrequest block hs).1, fun _ => (hrequest block hs).2⟩
  | run =>
    obtain ⟨L', h', hwork⟩ := hrun hs
    exact ⟨L', h', fun _ => hwork⟩

theorem stepOf_examined {σ : Type} {consumer : σ → Consumer} {put : Consumer → σ → σ} {request : Addr → σ → Option σ}
    {run : σ → Option σ} {t t' : σ} {ev : ConsumerEvent} (hs : stepOf consumer put request run t ev = some t') :
    (∃ w, w.examined = (consumer t).examined ∧ t' = put w t) ∨ (∃ b, ev = .grant b ∧ request b t = some t') ∨
      ev = .run ∧ run t = some t' := by
  cases ev with
  | report envelope data =>
    obtain ⟨w, ha, rfl⟩ := Option.map_eq_some_iff.mp hs
    exact Or.inl ⟨w, arrive_examined ha, rfl⟩
  | wakeup =>
    obtain ⟨w, he, rfl⟩ := Option.map_eq_some_iff.mp hs
    exact Or.inl ⟨w, expire_examined he, rfl⟩
  | grant block => exact Or.inr (Or.inl ⟨block, rfl, hs⟩)
  | run => exact Or.inr (Or.inr ⟨rfl, hs⟩)

theorem mem_pointers {p q text : Option Addr} : some a ∈ [p, q, text] ↔ a ∈ p.toList ++ q.toList ++ text.toList := by
  simp only [List.mem_cons, List.not_mem_nil, or_false, List.mem_append, Option.mem_toList, eq_comm, or_assoc]

end
end Consumer
end DoorRtos
