import DoorRtos.Queues

/-! Taking a given element out of a queue. The search hands the head to the removal that takes the tail and the tail to
    the one that takes the head, so it takes out what it was asked for only when the element is alone in the queue or at
    neither end, and from an empty queue it follows `NULL`. -/

namespace DoorRtos
open Linked

section
variable {ι : Type} [DecidableEq ι] {next : Links ι} {q : Queue ι} {l a : List ι} {e x : ι} {n : Nat}

/-- The outcome `r` of taking `e` out of a queue that holds `l`: it returns `e` and leaves the other elements in their
    order, or it returns `NULL` and changes nothing. -/
def Extracts (r : Option (Option ι × Links ι × Queue ι)) (next : Links ι) (q : Queue ι) (l : List ι) (e : ι) : Prop :=
  ∃ o next' q', r = some (o, next', q') ∧
    (e ∈ l → o = some e ∧ q'.Holds next' (l.erase e)) ∧ (e ∉ l → o = none ∧ next' = next ∧ q' = q)

/-- `e` is the only element, or is at neither end of a queue that has elements, or is where the tail pointer of an empty
    queue still points. -/
def Searchable (q : Queue ι) (l : List ι) (e : ι) : Prop :=
  l = [e] ∨ (l ≠ [] ∧ l.head? ≠ some e ∧ l.getLast? ≠ some e) ∨ (l = [] ∧ q.tail = some e)

instance (q : Queue ι) (l : List ι) (e : ι) : Decidable (Searchable q l e) := inferInstanceAs (Decidable (_ ∨ _ ∨ _))

/-- Taking out another element is not what was asked for. -/
theorem not_extracts_of_ne {next' : Links ι} {q' : Queue ι} (he : e ∈ l) (hx : x ≠ e) :
    ¬Extracts (some (some x, next', q')) next q l e := fun h => by
  obtain ⟨o, _, _, hr, hin, -⟩ := h
  cases hr
  exact hx (Option.some.inj (hin he).1)

theorem searchQueue_head (h : q.head = some e) :
    searchQueue (q.shift n next) (q.pop next) n next q e = q.shift n next := if_pos h

theorem searchQueue_tail (h : q.head ≠ some e) (ht : q.tail = some e) :
    searchQueue (q.shift n next) (q.pop next) n next q e = some ((q.pop next).1, next, (q.pop next).2) := by
  unfold searchQueue
  rw [if_neg h, if_pos ht]

theorem searchQueue_inner (h : q.head = some x) (hx : x ≠ e) (ht : q.tail ≠ some e) :
    searchQueue (q.shift n next) (q.pop next) n next q e = (unlink next e n x).map fun r => (r.1, r.2, q) := by
  have hne : q.head ≠ some e := fun he => hx (Option.some.inj (h.symm.trans he))
  unfold searchQueue
  rw [if_neg hne, if_neg ht, h]
  show (unlink next e n x).bind (fun r => some (r.1, r.2, q)) = _
  cases unlink next e n x <;> rfl

/-! ### The cases -/

theorem extracts_singleton (h : q.Holds next [e]) :
    Extracts (searchQueue (q.shift n next) (q.pop next) n next q e) next q [e] e := by
  rw [searchQueue_head h.head_eq, h.shift_singleton]
  refine ⟨some e, next, Queue.empty, rfl, fun _ => ⟨rfl, ?_⟩, fun hn => absurd List.mem_cons_self hn⟩
  rw [List.erase_cons_head]
  exact Queue.holds_empty next

/-- The removal at the tail is asked for the head. -/
theorem not_extracts_head (h : q.Holds next (e :: a ++ [x])) (hn : a.length < n) :
    ¬Extracts (searchQueue (q.shift n next) (q.pop next) n next q e) next q (e :: a ++ [x]) e := by
  have hxe : x ≠ e := fun he => (List.nodup_cons.mp h.nodup).1 (by simp [he])
  obtain ⟨next', q', hs, -, -⟩ := h.shift (n := n) hn
  rw [searchQueue_head h.head_eq, hs]
  exact not_extracts_of_ne List.mem_cons_self hxe

/-- The removal at the head is asked for the tail. -/
theorem not_extracts_tail (h : q.Holds next (x :: a ++ [e])) :
    ¬Extracts (searchQueue (q.shift n next) (q.pop next) n next q e) next q (x :: a ++ [e]) e := by
  have hxe : x ≠ e := fun he => (List.nodup_cons.mp h.nodup).1 (by simp [he])
  have hhead : q.head ≠ some e := fun he => hxe (Option.some.inj (h.head_eq.symm.trans he))
  have htail : q.tail = some e := by rw [h.tail (by simp), List.getLast?_concat]
  rw [searchQueue_tail hhead htail, h.pop_cons.1]
  exact not_extracts_of_ne (by simp) hxe

/-- The walk from the head takes out an element that is at neither end, and finds no other. -/
theorem extracts_inner (h : q.Holds next l) (hn : l.length ≤ n) (hl : l ≠ []) (hhead : l.head? ≠ some e)
    (hlast : l.getLast? ≠ some e) : Extracts (searchQueue (q.shift n next) (q.pop next) n next q e) next q l e := by
  obtain ⟨p, m, rfl⟩ := List.exists_cons_of_ne_nil hl
  have hp : q.head = some p := h.head_eq
  have hpe : p ≠ e := fun he => hhead (congrArg some he)
  rw [searchQueue_inner hp hpe (h.tail hl ▸ hlast)]
  by_cases he : e ∈ m
  · obtain ⟨a, b, hm⟩ := List.append_of_mem (List.mem_cons_of_mem p he)
    -- The element has a node before it, since it is not the head, and one after it, since it is not the tail.
    have hb : b ≠ [] := fun hb => hlast (by rw [hm, hb]; simp)
    obtain rfl | ⟨a, y, rfl⟩ := List.eq_nil_or_concat a
    · exact absurd (List.cons.inj hm).1 hpe
    rw [List.concat_eq_append, List.append_assoc, List.singleton_append] at hm
    rw [hm] at h hn ⊢
    have hnd := h.nodup
    have hlen : a.length < n := by
      simp only [List.length_append, List.length_cons] at hn
      omega
    have herase : (a ++ y :: e :: b).erase e = a ++ y :: b := by
      rw [List.nodup_append] at hnd
      have hea : e ∉ a := fun hea => hnd.2.2 e hea e (by simp) rfl
      have hye : y ≠ e := fun hye => (List.nodup_cons.mp hnd.2.1).1 (by simp [hye])
      rw [List.erase_append_right _ hea, List.erase_cons_tail (by simpa using hye), List.erase_cons_head]
    rw [unlink_eq (hp ▸ h.list) hlen]
    refine ⟨some e, _, q, rfl, fun _ => ⟨rfl, ?_⟩, fun hn => absurd (by simp) hn⟩
    rw [herase]
    exact h.bypass hb
  · have hem : e ∉ p :: m := fun hm => (List.mem_cons.mp hm).elim (fun h => hpe h.symm) he
    rw [unlink_of_not_mem (hp ▸ h.list) he hn]
    exact ⟨none, next, q, rfl, fun hm => absurd hm hem, fun _ => ⟨rfl, rfl, rfl⟩⟩

/-- In an empty queue only the tail pointer keeps the search from following `NULL`. -/
theorem extracts_nil_iff (h : q.Holds next []) :
    Extracts (searchQueue (q.shift n next) (q.pop next) n next q e) next q [] e ↔ q.tail = some e := by
  have hhead : q.head = none := h.head_eq
  have hne : q.head ≠ some e := by simp [hhead]
  constructor
  · intro hx
    by_contra ht
    obtain ⟨_, _, _, hr, -⟩ := hx
    unfold searchQueue at hr
    rw [if_neg hne, if_neg ht, hhead] at hr
    cases hr
  · intro ht
    rw [searchQueue_tail hne ht, h.pop_nil]
    exact ⟨none, next, q, rfl, fun hm => absurd hm List.not_mem_nil, fun _ => ⟨rfl, rfl, rfl⟩⟩

theorem extracts_iff_searchable (h : q.Holds next l) (hn : l.length ≤ n) :
    Extracts (searchQueue (q.shift n next) (q.pop next) n next q e) next q l e ↔ Searchable q l e := by
  cases l with
  | nil =>
    rw [extracts_nil_iff h]
    simp [Searchable]
  | cons p m =>
    refine ⟨fun hx => ?_, fun hs => ?_⟩
    · by_cases hhead : p = e
      · -- The head is taken out only when nothing is after it.
        subst hhead
        obtain rfl | ⟨a, x, rfl⟩ := List.eq_nil_or_concat m
        · exact Or.inl rfl
        rw [List.concat_eq_append] at h hn hx
        have hlen : a.length < n := by
          simp only [List.length_append, List.length_cons] at hn
          omega
        exact absurd hx (not_extracts_head h hlen)
      · refine Or.inr (Or.inl ⟨List.cons_ne_nil p m, fun he => hhead (Option.some.inj he), fun hlast => ?_⟩)
        obtain rfl | ⟨a, x, rfl⟩ := List.eq_nil_or_concat m
        · exact hhead (Option.some.inj hlast)
        rw [List.concat_eq_append] at h hx hlast
        rw [← List.cons_append, List.getLast?_concat] at hlast
        have hxe : x = e := Option.some.inj hlast
        exact not_extracts_tail (hxe ▸ h) (hxe ▸ hx)
    · obtain hs | ⟨hl, hhead, hlast⟩ | ⟨hl, -⟩ := hs
      · rw [hs] at h ⊢
        exact extracts_singleton h
      · exact extracts_inner h hn hl hhead hlast
      · exact absurd hl (List.cons_ne_nil p m)

end

/-! ### The two searches -/

/-- The searches take out what they are asked for, and find nothing else, exactly where the element is alone in its
    queue or off its ends, or an empty queue's tail pointer is left at it. -/
theorem searches_extract_iff {next : Links PcbRef} {q : PCBQueue} {l : List PcbRef} {messNext : Links Addr}
    {mq : MessagesQueue} {envs : List Addr} (h : q.Holds next l) (hm : mq.Holds messNext envs) (e : PcbRef) (env : Addr) :
    (Extracts (searchDequeue next q e) next q l e ↔ Searchable q l e) ∧
      (Extracts (searchDequeueMessage messNext mq env) messNext mq envs env ↔ Searchable mq envs env) :=
  ⟨extracts_iff_searchable h (PcbRef.length_le h.nodup),
    extracts_iff_searchable hm (Nat.le_of_lt (Addr.length_lt hm.nodup))⟩

/-- Three PCBs and three envelopes, searched for the one in the middle. -/
theorem searches_extract_middle :
    let first : Addr := ⟨0x100, by decide, by decide⟩
    let second : Addr := ⟨0x200, by decide, by decide⟩
    let third : Addr := ⟨0x300, by decide, by decide⟩
    let next : Links PcbRef := fun p => if p = crtPid then some kcdPid else if p = kcdPid then some wcPid else none
    let messNext : Links Addr := fun a => if a = first then some second else if a = second then some third else none
    let q : PCBQueue := ⟨some crtPid, some wcPid⟩
    let mq : MessagesQueue := ⟨some first, some third⟩
    Extracts (searchDequeue next q kcdPid) next q [crtPid, kcdPid, wcPid] kcdPid ∧
      Extracts (searchDequeueMessage messNext mq second) messNext mq [first, second, third] second := by
  intro first second third next messNext q mq
  have h : q.Holds next [crtPid, kcdPid, wcPid] := ⟨by decide, fun _ => rfl⟩
  have hm : mq.Holds messNext [first, second, third] := ⟨by decide, fun _ => rfl⟩
  have hiff := searches_extract_iff h hm kcdPid second
  exact ⟨hiff.1.mpr (by decide), hiff.2.mpr (by decide)⟩

/-- Of two PCBs, the search for the first returns the second; of two envelopes, the search for the second returns the
    first; the search in an empty queue follows `NULL`. -/
theorem searches_miss_ends :
    let first : Addr := ⟨0x100, by decide, by decide⟩
    let second : Addr := ⟨0x200, by decide, by decide⟩
    let next : Links PcbRef := fun p => if p = crtPid then some kcdPid else none
    let messNext : Links Addr := fun a => if a = first then some second else none
    let q : PCBQueue := ⟨some crtPid, some kcdPid⟩
    let mq : MessagesQueue := ⟨some first, some second⟩
    (q.Holds next [crtPid, kcdPid] ∧ (searchDequeue next q crtPid).map Prod.fst = some (some kcdPid) ∧
      ¬Extracts (searchDequeue next q crtPid) next q [crtPid, kcdPid] crtPid) ∧
    (mq.Holds messNext [first, second] ∧ (searchDequeueMessage messNext mq second).map Prod.fst = some (some first) ∧
      ¬Extracts (searchDequeueMessage messNext mq second) messNext mq [first, second] second) ∧
    searchDequeue next Queue.empty crtPid = none ∧ searchDequeueMessage messNext Queue.empty first = none := by
  intro first second next messNext q mq
  have h : q.Holds next [crtPid, kcdPid] := ⟨by decide, fun _ => rfl⟩
  have hm : mq.Holds messNext [first, second] := ⟨by decide, fun _ => rfl⟩
  exact ⟨⟨h, by decide, not_extracts_head (a := []) h (by decide)⟩,
    ⟨hm, by decide, not_extracts_tail (a := []) hm⟩, by decide, by decide⟩

end DoorRtos
