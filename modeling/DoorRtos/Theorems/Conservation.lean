import DoorRtos.Runs
import DoorRtos.Theorems.Iterations

/-! Delayed messages are neither lost nor duplicated, whatever `timer_count` is when they are accepted. -/

namespace DoorRtos
open Linked

namespace Timing

/-- A call with a positive delay for an existing process other than the timer, with an envelope that has not been
    accepted before. -/
structure NewSend (s : Timing) (processID : Nat) (envelope : Addr) (delay : Int) : Prop where
  dest : ∃ d, s.kernel.Created d ∧ d ≠ timerPid ∧ d.val = processID
  pos : 0 < delay
  fresh : ∀ m ∈ s.accepted, m.envelope ≠ envelope

def New (s : Timing) : TimingEvent → Prop
  | .delayedSend _ processID envelope delay => s.NewSend processID envelope delay
  | .iteration => True

/-- The envelopes passed on so far, in order. -/
def sent (s : Timing) : List Addr := s.passed.map Pass.envelope

/-- The list of delayed messages is `D`, and every accepted envelope is in exactly one place, once: in the list, or among
    those passed on, with the process that it was accepted for. -/
structure Conserved (s : Timing) (D : List Addr) : Prop where
  list : IsList s.kernel.messNext s.kernel.delayedSendQueue.head D
  once : ∀ m ∈ s.accepted, D.count m.envelope = 1 ∧ m.envelope ∉ s.sent ∨
    m.envelope ∉ D ∧ s.sent.count m.envelope = 1 ∧ ∀ x ∈ s.passed, x.envelope = m.envelope → x.destPid = m.destPid

/-- Whenever `s` has `x` nearer to the head of its list than `y` and `s'` has passed `y` on, it has passed `x` on
    before. -/
def InOrder (s s' : Timing) : Prop :=
  ∀ D, IsList s.kernel.messNext s.kernel.delayedSendQueue.head D → ∀ x y, [x, y].Sublist D → y ∈ s'.sent →
    [x, y].Sublist s'.sent

end Timing

/-- The envelopes of `D` are pending, and with those passed on they are the accepted ones. -/
structure Keeping (s : Timing) (D : List Addr) : Prop where
  ready : TimerReady s.kernel
  pending : Pending s.kernel D
  perm : (s.passed.map (fun x => (x.envelope, x.destPid)) ++ D.map fun e => (e, (s.kernel.mess e).destPid)).Perm
    (s.accepted.map fun m => (m.envelope, m.destPid))
  nodup : (s.accepted.map Delayed.envelope).Nodup

section
variable {s s' : Timing} {D D' : List Addr} {e : Addr} {k : Kernel}

/-- The accepted envelopes are those passed on and those in the list. -/
theorem Keeping.perm_envelopes (h : Keeping s D) : (s.sent ++ D).Perm (s.accepted.map Delayed.envelope) := by
  have hperm := h.perm.map Prod.fst
  rw [List.map_append, List.map_map, List.map_map, List.map_map] at hperm
  rwa [show D.map (Prod.fst ∘ fun e => (e, (s.kernel.mess e).destPid)) = D from List.map_id D] at hperm

theorem Keeping.nodup_envelopes (h : Keeping s D) : (s.sent ++ D).Nodup := h.perm_envelopes.nodup_iff.mpr h.nodup

theorem Keeping.conserved (h : Keeping s D) : s.Conserved D where
  list := h.pending.list
  once m hm := by
    have hmem : m.envelope ∈ s.sent ++ D := h.perm_envelopes.mem_iff.mpr (List.mem_map_of_mem hm)
    obtain ⟨hsent, hD, hne⟩ := List.nodup_append.mp h.nodup_envelopes
    rcases List.mem_append.mp hmem with hin | hin
    · refine Or.inr ⟨fun hd => hne _ hin _ hd rfl, List.count_eq_one_of_mem hsent hin, fun x hx hxm => ?_⟩
      have hxacc : (x.envelope, x.destPid) ∈ s.accepted.map fun m => (m.envelope, m.destPid) :=
        h.perm.mem_iff.mp (List.mem_append_left _ (List.mem_map_of_mem hx))
      obtain ⟨m', hm', heq⟩ := List.mem_map.mp hxacc
      obtain ⟨henv, hdest⟩ := Prod.mk.inj heq
      rw [← hdest, List.inj_on_of_nodup_map h.nodup hm' hm (henv.trans hxm)]
    · exact Or.inl ⟨List.count_eq_one_of_mem hD hin, fun hs => hne _ hs _ hin rfl⟩

theorem keeping_start (h : TimerReady k) (hempty : k.delayedSendQueue.head = none) : Keeping (.start k) [] where
  ready := h
  pending := ⟨hempty, fun _ he => absurd he List.not_mem_nil⟩
  perm := .nil
  nodup := .nil

/-- A call adds its envelope to the list. -/
theorem Keeping.send {caller : PcbRef} {pid : Nat} {delay : Int} (h : Keeping s D) (hs : s.NewSend pid e delay) :
    ∃ s' D', s.step (.delayedSend caller pid e delay) = some s' ∧ Keeping s' D' ∧ s'.passed = s.passed ∧ D.Sublist D' := by
  have he : e ∉ D := fun he => by
    obtain ⟨m, hm, hme⟩ := List.mem_map.mp (h.perm_envelopes.mem_iff.mp (List.mem_append_right s.sent he))
    exact hs.fresh m hm hme
  obtain ⟨a, b, k', rfl, hstep, hins, -⟩ := Timing.send_spec caller pid hs.pos h.pending.list he
  have hpids : ∀ p, (k'.pcbs p).pid = (s.kernel.pcbs p).pid := fun p => by rw [hins.pcbs]
  have hdest : ∀ x ∈ a ++ b, (k'.mess x).destPid = (s.kernel.mess x).destPid := fun x hx =>
    (hins.destPid x).trans (if_neg fun hxe : x = e => he (hxe ▸ hx))
  have hself : (k'.mess e).destPid = pid := (hins.destPid e).trans (if_pos rfl)
  have hmap : ∀ l : List Addr, l.Sublist (a ++ b) →
      l.map (fun x => (x, (k'.mess x).destPid)) = l.map fun x => (x, (s.kernel.mess x).destPid) := fun l hl =>
    List.map_congr_left fun x hx => by rw [hdest x (hl.subset hx)]
  refine ⟨_, a ++ e :: b, hstep, ⟨h.ready.inserted hins, ⟨hins.list, fun x hx => ?_⟩, ?_, ?_⟩, rfl,
    (List.Sublist.refl a).append (List.sublist_cons_self e b)⟩
  · rcases List.mem_cons.mp (List.perm_middle.mem_iff.mp hx) with rfl | hx
    · rw [hself]
      exact Sendable.congr (Or.inr hs.dest) hpids
    · rw [hdest x hx]
      exact (h.pending.dest x hx).congr hpids
  · show (_ ++ (a ++ e :: b).map fun x => (x, (k'.mess x).destPid)).Perm _
    rw [List.map_append, List.map_cons, hself, hmap a (List.sublist_append_left a b),
      hmap b (List.sublist_append_right a b), List.map_append]
    have hperm := h.perm
    rw [List.map_append] at hperm
    refine List.Perm.trans ?_ (hperm.append_right [(e, pid)])
    rw [List.append_assoc, List.append_assoc]
    exact List.Perm.append_left _ (List.Perm.append_left _ (List.perm_append_singleton _ _).symm)
  · show ((s.accepted ++ [_]).map Delayed.envelope).Nodup
    rw [List.map_append]
    refine h.nodup.append (List.nodup_singleton e) fun x hx hxe => ?_
    obtain ⟨m, hm, hme⟩ := List.mem_map.mp hx
    exact hs.fresh m hm (hme.trans (List.mem_singleton.mp hxe))

/-- An iteration passes on a part of the list from its head. -/
theorem Keeping.iteration (h : Keeping s D) :
    ∃ s' D₁ D₂, D = D₁ ++ D₂ ∧ s.step .iteration = some s' ∧ Keeping s' D₂ ∧ s'.sent = s.sent ++ D₁ := by
  obtain ⟨D₁, D₂, k', rfl, -, -, hstep, hrem⟩ := Timing.iteration_spec h.ready h.pending
  refine ⟨_, D₁, D₂, rfl, hstep, ⟨hrem.inTimer.toTimerReady, hrem.pending, ?_, h.nodup⟩, ?_⟩
  · refine List.Perm.trans (List.Perm.of_eq ?_) h.perm
    simp only [List.map_append, List.map_map, List.append_assoc, hrem.destPid]
    rfl
  · unfold Timing.sent
    rw [List.map_append, List.map_map]
    exact congrArg (_ ++ ·) (List.map_id D₁)

/-! ### Runs -/

/-- A run takes envelopes from the head of the list, and adds new ones anywhere. -/
theorem Keeping.run {es : List TimingEvent} (h : Keeping s D) (hes : Runs.Meets Timing.step Timing.New s es) :
    ∃ s' D' new, Runs.exec Timing.step s es = some s' ∧ Keeping s' D' ∧ s'.sent = s.sent ++ new ∧
      D.Sublist (new ++ D') := by
  induction es generalizing s D with
  | nil => exact ⟨s, D, [], rfl, h, (List.append_nil _).symm, List.Sublist.refl D⟩
  | cons e es ih =>
    obtain ⟨hnew, hrest⟩ := hes
    obtain ⟨s₁, D₁, new₁, hstep, h₁, hsent₁, hsub₁⟩ : ∃ s₁ D₁ new₁, s.step e = some s₁ ∧ Keeping s₁ D₁ ∧
        s₁.sent = s.sent ++ new₁ ∧ D.Sublist (new₁ ++ D₁) := by
      cases e with
      | delayedSend caller pid e delay =>
        obtain ⟨s₁, D₁, hstep, h₁, hpassed, hsub⟩ := h.send hnew
        exact ⟨s₁, D₁, [], hstep, h₁, by rw [List.append_nil, Timing.sent, hpassed]; rfl, hsub⟩
      | iteration =>
        obtain ⟨s₁, D₁, D₂, rfl, hstep, h₁, hsent⟩ := h.iteration
        exact ⟨s₁, D₂, D₁, hstep, h₁, hsent, List.Sublist.refl _⟩
    obtain ⟨s₂, D₂, new₂, hexec, h₂, hsent₂, hsub₂⟩ := ih h₁ (hrest s₁ hstep)
    refine ⟨s₂, D₂, new₁ ++ new₂, by rw [Runs.exec_cons, hstep]; exact hexec, h₂, ?_, ?_⟩
    · rw [hsent₂, hsent₁, List.append_assoc]
    · rw [List.append_assoc]
      exact hsub₁.trans ((List.Sublist.refl new₁).append hsub₂)

/-- Of two envelopes in the list the one nearer to the head is passed on first. -/
theorem Keeping.inOrder {new : List Addr} (h : Keeping s D) (h' : Keeping s' D') (hsent : s'.sent = s.sent ++ new)
    (hsub : D.Sublist (new ++ D')) : s.InOrder s' := by
  intro D₀ hD₀ x y hxy hy
  cases hD₀.det h.pending.list
  have hyD : y ∈ D := hxy.subset (by simp)
  have hynew : y ∈ new := by
    rw [hsent] at hy
    exact (List.mem_append.mp hy).resolve_left fun hys => (List.nodup_append.mp h.nodup_envelopes).2.2 y hys y hyD rfl
  have hyD' : y ∉ D' := fun hy' => (List.nodup_append.mp h'.nodup_envelopes).2.2 y hy y hy' rfl
  obtain ⟨l₁, l₂, hl, hl₁, hl₂⟩ := List.sublist_append_iff.mp (hxy.trans hsub)
  -- The part in the rest of the list would hold `y`.
  have hnil : l₂ = [] := by
    by_contra hne
    have hlast : l₂.getLast? = some y := by
      rw [← List.getLast?_append_of_ne_nil l₁ hne, ← hl]
      rfl
    exact hyD' (hl₂.subset (List.mem_of_getLast? hlast))
  rw [hnil, List.append_nil] at hl
  rw [hsent, hl]
  exact hl₁.trans (List.sublist_append_right _ _)

end

/-- In every run no accepted message is lost or duplicated at any moment, and between any two moments messages are
    passed on in the order of the list. -/
theorem delayed_messages_conserved {k : Kernel} (h : TimerReady k) (hempty : k.delayedSendQueue.head = none)
    {es₁ es₂ : List TimingEvent} (hes : Runs.Meets Timing.step Timing.New (.start k) (es₁ ++ es₂)) :
    ∃ s₁ s₂ D₁ D₂, Runs.exec Timing.step (.start k) es₁ = some s₁ ∧ Runs.exec Timing.step s₁ es₂ = some s₂ ∧
      s₁.Conserved D₁ ∧ s₂.Conserved D₂ ∧ s₁.InOrder s₂ := by
  obtain ⟨s₁, D₁, -, hs₁, h₁, -⟩ := (keeping_start h hempty).run hes.left
  obtain ⟨s₂, D₂, new, hs₂, h₂, hsent, hsub⟩ := h₁.run (hes.right hs₁)
  exact ⟨s₁, s₂, D₁, D₂, hs₁, hs₂, h₁.conserved, h₂.conserved, h₁.inOrder h₂ hsent hsub⟩

/-- Two messages just after the start, the second one with the shorter delay, and three iterations. -/
theorem delayed_messages_conserved_at_boot :
    ∃ k s₁ s₂ D₁ D₂, boot rtosMap = .switched k ∧
      Runs.exec Timing.step (.start k)
        [.delayedSend wcPid crtPid.val firstBlock 5, .delayedSend wcPid kcdPid.val secondBlock 2] = some s₁ ∧
      Runs.exec Timing.step s₁ [.iteration, .iteration, .iteration] = some s₂ ∧
      s₁.Conserved D₁ ∧ s₂.Conserved D₂ ∧ s₁.InOrder s₂ := by
  have hrun : ((boot rtosMap).kernel?.any fun k =>
      (Timing.step (.start k) (.delayedSend wcPid crtPid.val firstBlock 5)).any fun s =>
        decide (s.kernel.Created kcdPid ∧ s.accepted.map Delayed.envelope = [firstBlock])) = true := by decide +kernel
  obtain ⟨k, hboot, h⟩ := boot_spec rtosMap
  rw [hboot, Outcome.kernel?_switched, Option.any_some] at hrun
  have hempty : k.delayedSendQueue.head = none := by rw [h.started.delayed]; rfl
  have hcrt : k.Created crtPid := h.started.created_iff.mpr (Or.inr (by decide))
  have hmeets : Runs.Meets Timing.step Timing.New (.start k)
      ([.delayedSend wcPid crtPid.val firstBlock 5, .delayedSend wcPid kcdPid.val secondBlock 2] ++
        [.iteration, .iteration, .iteration]) := by
    refine ⟨⟨⟨crtPid, hcrt, by decide, rfl⟩, by decide, fun m hm => absurd hm List.not_mem_nil⟩, fun s hs => ?_⟩
    rw [hs, Option.any_some] at hrun
    obtain ⟨hkcd, haccepted⟩ := of_decide_eq_true hrun
    refine ⟨⟨⟨kcdPid, hkcd, by decide, rfl⟩, by decide, fun m hm => ?_⟩,
      fun _ _ => ⟨trivial, fun _ _ => ⟨trivial, fun _ _ => ⟨trivial, fun _ _ => trivial⟩⟩⟩⟩
    have hmem : m.envelope ∈ s.accepted.map Delayed.envelope := List.mem_map_of_mem hm
    rw [haccepted] at hmem
    rw [List.mem_singleton.mp hmem]
    decide
  obtain ⟨s₁, s₂, D₁, D₂, hs₁, hs₂, hc₁, hc₂, horder⟩ := delayed_messages_conserved h.timerReady hempty hmeets
  exact ⟨k, s₁, s₂, D₁, D₂, hboot, hs₁, hs₂, hc₁, hc₂, horder⟩

end DoorRtos
