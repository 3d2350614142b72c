import DoorRtos.Theorems.Expiry

/-! Delayed messages with equal delays for one process. The later one is linked in front of the earlier one, and passed
    on first. -/

/-- The element `x` is in the list, and no `y` before it. -/
def Leads {α : Type} (x y : α) (l : List α) : Prop := ∃ a b, l = a ++ x :: b ∧ y ∉ a

section
variable {α : Type} {x y : α} {l l' : List α}

theorem Leads.append (h : Leads x y l) (l' : List α) : Leads x y (l ++ l') := by
  obtain ⟨a, b, rfl, hy⟩ := h
  exact ⟨a, b ++ l', by rw [List.append_assoc, List.cons_append], hy⟩

theorem Leads.prepend (h : Leads x y l) (hy : y ∉ l') : Leads x y (l' ++ l) := by
  obtain ⟨a, b, rfl, ha⟩ := h
  exact ⟨l' ++ a, b, (List.append_assoc ..).symm, fun hmem => (List.mem_append.mp hmem).elim hy ha⟩

theorem leads_of_mem (hx : x ∈ l) (hy : y ∉ l) : Leads x y l := by
  obtain ⟨a, b, rfl⟩ := List.append_of_mem hx
  exact ⟨a, b, rfl, fun ha => hy (List.mem_append_left _ ha)⟩

theorem leads_of_sublist (h : [x, y].Sublist l) (hnd : l.Nodup) : Leads x y l := by
  obtain ⟨a, b, rfl, hx, hy⟩ := List.cons_sublist_iff.mp h
  obtain ⟨a, c, rfl⟩ := List.append_of_mem hx
  rw [List.append_assoc]
  refine ⟨a, c ++ b, rfl, fun ha => ?_⟩
  exact (List.nodup_append.mp hnd).2.2 y (List.mem_append_left _ ha) y (List.singleton_sublist.mp hy) rfl

/-- Only one of two elements comes first. -/
theorem Leads.asymm (hne : x ≠ y) (h : Leads x y l) : ¬Leads y x l := by
  rintro ⟨c, d, hcd, hx⟩
  obtain ⟨a, b, rfl, hy⟩ := h
  rcases List.append_eq_append_iff.mp hcd with ⟨m, rfl, hm⟩ | ⟨m, rfl, hm⟩
  · cases m with
    | nil => exact hne (List.cons.inj hm).1
    | cons z m =>
      obtain ⟨rfl, -⟩ := List.cons.inj hm
      exact hx (List.mem_append_right a List.mem_cons_self)
  · cases m with
    | nil => exact hne (List.cons.inj hm).1.symm
    | cons z m =>
      obtain ⟨rfl, -⟩ := List.cons.inj hm
      exact hy (List.mem_append_right c List.mem_cons_self)

end

namespace DoorRtos
open Linked

/-- How two envelopes stand that were delayed for the process `pid` with the same delay, first `e₁` and then `e₂`, when the
    timer process has passed on `P` since. -/
inductive Tie (k : Kernel) (M : PcbRef → List Addr) (D : List Addr) (pid : Nat) (e₁ e₂ : Addr)
    (P : List (Nat × Addr)) : Prop
  | waiting (hD : [e₂, e₁].Sublist D) (hdest₁ : (k.mess e₁).destPid = pid) (hdest₂ : (k.mess e₂).destPid = pid)
      (hP₁ : (pid, e₁) ∉ P) (hP₂ : (pid, e₂) ∉ P)
  | second (hD : e₁ ∈ D) (hdest₁ : (k.mess e₁).destPid = pid) (hP : Leads (pid, e₂) (pid, e₁) P)
      (hM : ∀ d, getPcb k pid = some d → d ≠ timerPid → e₂ ∈ M d)
  | both (hP : Leads (pid, e₂) (pid, e₁) P)
      (hM : ∀ d, getPcb k pid = some d → d ≠ timerPid → [e₁, e₂].Sublist (M d))

section
variable {k k' k₁ : Kernel} {M M' : PcbRef → List Addr} {D D' D₁ D₂ : List Addr} {pid : Nat} {e e₁ e₂ : Addr}
  {P : List (Nat × Addr)}

/-- A call does not move them. -/
theorem Tie.mono (h : Tie k M D pid e₁ e₂ P) (htable : SameTable k k')
    (hdest : ∀ x ∈ D, (k'.mess x).destPid = (k.mess x).destPid) (hD : D.Sublist D')
    (hM : ∀ p, p ≠ timerPid → (M p).Sublist (M' p)) :
    Tie k' M' D' pid e₁ e₂ P := by
  have hfound : ∀ d, getPcb k' pid = some d → getPcb k pid = some d := fun d hd => (htable.getPcb pid).symm.trans hd
  cases h with
  | waiting hsub hdest₁ hdest₂ hP₁ hP₂ =>
    have h₁ := hdest e₁ (hsub.subset (List.mem_cons_of_mem e₂ List.mem_cons_self))
    have h₂ := hdest e₂ (hsub.subset List.mem_cons_self)
    exact .waiting (hsub.trans hD) (h₁.trans hdest₁) (h₂.trans hdest₂) hP₁ hP₂
  | second hmem hdest₁ hP hbox =>
    exact .second (hD.subset hmem) ((hdest e₁ hmem).trans hdest₁) hP fun d hd hne =>
      (hM d hne).subset (hbox d (hfound d hd) hne)
  | both hP hbox => exact .both hP fun d hd hne => (hbox d (hfound d hd) hne).trans (hM d hne)

theorem mem_outgoing {x : Addr} : (pid, x) ∈ outgoing k D ↔ x ∈ D ∧ (k.mess x).destPid = pid := by
  unfold outgoing
  constructor
  · intro h
    obtain ⟨y, hy, heq⟩ := List.mem_map.mp h
    obtain ⟨hpid, rfl⟩ := Prod.mk.inj heq
    exact ⟨hy, hpid⟩
  · rintro ⟨hx, rfl⟩
    exact List.mem_map_of_mem hx

/-- An expiry passes them on in the order of the list. -/
theorem Tie.expires (h : Tie k M (D₁ ++ D₂) pid e₁ e₂ P) (hnd : (D₁ ++ D₂).Nodup) (hexp : Expires k M D₁ D₂ k') :
    Tie k' (fun p => (arrivals k (outgoing k D₁) p).reverse ++ M p) D₂ pid e₁ e₂ (P ++ outgoing k D₁) := by
  have hfound : ∀ d, getPcb k' pid = some d → getPcb k pid = some d := fun d hd => (hexp.table.getPcb pid).symm.trans hd
  have hsplit : ∀ x ∈ D₂, x ∉ D₁ := fun x h₂ h₁ => (List.nodup_append.mp hnd).2.2 x h₁ x h₂ rfl
  have harrive : ∀ x d, x ∈ D₁ → (k.mess x).destPid = pid → getPcb k pid = some d → x ∈ arrivals k (outgoing k D₁) d :=
    fun x d hx hdest hd => mem_arrivals.mpr ⟨hx, hdest ▸ hd⟩
  cases h with
  | waiting hsub hdest₁ hdest₂ hP₁ hP₂ =>
    obtain ⟨l₁, l₂, hl, h₁, h₂⟩ := List.sublist_append_iff.mp hsub
    cases l₁ with
    | nil =>
      obtain rfl : [e₂, e₁] = l₂ := hl
      have hnot₁ := hsplit e₁ (h₂.subset (List.mem_cons_of_mem e₂ List.mem_cons_self))
      have hnot₂ := hsplit e₂ (h₂.subset List.mem_cons_self)
      refine .waiting h₂ ((hexp.destPid e₁).trans hdest₁) ((hexp.destPid e₂).trans hdest₂) (fun hmem => ?_) fun hmem => ?_
      · exact (List.mem_append.mp hmem).elim hP₁ fun hout => hnot₁ (mem_outgoing.mp hout).1
      · exact (List.mem_append.mp hmem).elim hP₂ fun hout => hnot₂ (mem_outgoing.mp hout).1
    | cons x l₁ =>
      obtain ⟨rfl, htail⟩ := List.cons.inj hl
      have hmem₂ : e₂ ∈ D₁ := h₁.subset List.mem_cons_self
      have hout₂ := mem_outgoing.mpr ⟨hmem₂, hdest₂⟩
      cases l₁ with
      | nil =>
        obtain rfl : [e₁] = l₂ := htail
        have hmem₁ : e₁ ∈ D₂ := h₂.subset List.mem_cons_self
        have hleads : Leads (pid, e₂) (pid, e₁) (outgoing k D₁) :=
          leads_of_mem hout₂ fun hout => hsplit e₁ hmem₁ (mem_outgoing.mp hout).1
        exact .second hmem₁ ((hexp.destPid e₁).trans hdest₁) (hleads.prepend hP₁) fun d hd _ =>
          List.mem_append_left _ (List.mem_reverse.mpr (harrive e₂ d hmem₂ hdest₂ (hfound d hd)))
      | cons y l₁ =>
        obtain ⟨rfl, hnil⟩ := List.cons.inj htail
        obtain ⟨rfl, rfl⟩ := List.append_eq_nil_iff.mp hnil.symm
        have hout : [(pid, e₂), (pid, e₁)].Sublist (outgoing k D₁) := by
          have hmap := h₁.map fun x => ((k.mess x).destPid, x)
          rwa [List.map_cons, List.map_cons, hdest₁, hdest₂] at hmap
        have hnodup : (outgoing k D₁).Nodup :=
          ((List.nodup_append.mp hnd).1).map fun x y hxy => (Prod.mk.inj hxy).2
        refine .both ((leads_of_sublist hout hnodup).prepend hP₁) fun d hd _ => ?_
        have hfilter := hout.filter fun x => getPcb k x.1 = some d
        rw [List.filter_cons_of_pos (by simpa using hfound d hd),
          List.filter_cons_of_pos (by simpa using hfound d hd)] at hfilter
        exact (hfilter.map Prod.snd).reverse.trans (List.sublist_append_left _ _)
  | second hmem hdest₁ hP hbox =>
    rcases List.mem_append.mp hmem with h₁ | h₂
    · refine .both (hP.append _) fun d hd hne => ?_
      have hone := List.singleton_sublist.mpr (List.mem_reverse.mpr (harrive e₁ d h₁ hdest₁ (hfound d hd)))
      exact hone.append (List.singleton_sublist.mpr (hbox d (hfound d hd) hne))
    · exact .second h₂ ((hexp.destPid e₁).trans hdest₁) (hP.append _) fun d hd hne =>
        List.mem_append_right _ (hbox d (hfound d hd) hne)
  | both hP hbox =>
    exact .both (hP.append _) fun d hd hne => (hbox d (hfound d hd) hne).trans (List.sublist_append_right _ _)

end

/-! ### The runs -/

namespace Timing

/-- A call hands over an envelope that is linked nowhere, and its delay is a value of the parameter's type. -/
def HandsOver (s : Timing) : TimingEvent → Prop
  | .delayedSend _ _ envelope delay => (∀ M D, Mail s.kernel M D → Loose M D envelope) ∧ delay < 2 ^ 31
  | .iteration => True

/-- What the timer process has passed on since the state `s`: the destinations and the envelopes. -/
def passedSince (s' s : Timing) : List (Nat × Addr) :=
  (s'.passed.drop s.passed.length).map fun x => (x.destPid, x.envelope)

end Timing

/-- The envelope `e` is delayed for `pid` at the accumulated delay `d`, and nothing has been passed on since `s₀`. -/
structure Outstanding (s₀ : Timing) (pid : Nat) (e : Addr) (d : Nat) (s : Timing) (M : PcbRef → List Addr)
    (D : List Addr) : Prop where
  own : OwnMailboxes s.kernel
  mail : Mail s.kernel M D
  word : ∀ x ∈ entries s.kernel D, x.2 < 2 ^ 32
  time : (e, d) ∈ Delta.times 0 (entries s.kernel D)
  dest : (s.kernel.mess e).destPid = pid
  passed : s.passed = s₀.passed

/-- Both envelopes have been delayed since `s₀`. -/
structure Tied (s₀ : Timing) (pid : Nat) (e₁ e₂ : Addr) (s : Timing) (M : PcbRef → List Addr) (D : List Addr) : Prop where
  own : OwnMailboxes s.kernel
  mail : Mail s.kernel M D
  passed : ∃ later, s.passed = s₀.passed ++ later
  tie : Tie s.kernel M D pid e₁ e₂ (s.passedSince s₀)

section
variable {s₀ s s' : Timing} {M : PcbRef → List Addr} {D : List Addr} {pid pid' d : Nat} {e e₁ e₂ : Addr} {caller : PcbRef}
  {delay : Int}

theorem mem_times_entries {k : Kernel} {base : Nat} (h : (e, d) ∈ Delta.times base (entries k D)) : e ∈ D := by
  have hmem : e ∈ (Delta.times base (entries k D)).map Prod.fst := List.mem_map_of_mem h
  rw [Delta.times_fst] at hmem
  unfold entries at hmem
  rw [List.map_map] at hmem
  exact (List.map_id D) ▸ hmem

/-- The first of the two calls. -/
theorem Timing.step_outstanding (hown : OwnMailboxes s.kernel) (h : Mail s.kernel M D)
    (hword : ∀ x ∈ entries s.kernel D, x.2 < 2 ^ 32)
    (hok : s.HandsOver (.delayedSend caller pid e delay)) (hpos : 0 < delay)
    (hs : s.step (.delayedSend caller pid e delay) = some s') : ∃ D', Outstanding s pid e delay.toNat s' M D' := by
  obtain ⟨hcalls, -, hpid, a, b, rfl, hmail, -, hinsert⟩ := Timing.step_later h (hok.1 M D h) hpos hs
  have hentries := hinsert hword
  refine ⟨a ++ e :: b, hcalls.table.own hown, hmail, fun x hx => ?_, ?_, hpid, hcalls.passed⟩
  · rw [hentries] at hx
    exact Delta.lt_of_mem_insert (by have := hok.2; omega) hword hx
  · rw [hentries]
    have hself := Delta.mem_times_insert_self 0 e delay.toNat (entries s.kernel (a ++ b))
    rwa [Nat.zero_add] at hself

/-- The calls between the two leave the time of the first envelope alone. -/
theorem Outstanding.call {e' : Addr} (h : Outstanding s₀ pid e d s M D)
    (hok : s.HandsOver (.delayedSend caller pid' e' delay))
    (hs : s.step (.delayedSend caller pid' e' delay) = some s') : ∃ M' D', Outstanding s₀ pid e d s' M' D' := by
  have hl := hok.1 M D h.mail
  have hne : e ≠ e' := fun he => hl.2 (he ▸ mem_times_entries h.time)
  rcases Int.lt_or_le 0 delay with hpos | hle
  · obtain ⟨hcalls, -, -, a, b, rfl, hmail, -, hinsert⟩ := Timing.step_later h.mail hl hpos hs
    have hentries := hinsert h.word
    refine ⟨M, a ++ e' :: b, hcalls.table.own h.own, hmail, fun x hx => ?_, ?_, (hcalls.destPid e hne).trans h.dest,
      hcalls.passed.trans h.passed⟩
    · rw [hentries] at hx
      exact Delta.lt_of_mem_insert (by have := hok.2; omega) h.word hx
    · rw [hentries]
      exact Delta.mem_times_insert_of_mem h.time
  · obtain ⟨hcalls, -, hdelay, hmail⟩ := Timing.step_now h.own h.mail hl hle hs
    have hentries : entries s'.kernel D = entries s.kernel D := entries_congr fun x _ => hdelay x
    exact ⟨_, D, hcalls.table.own h.own, hmail, hentries ▸ h.word, hentries ▸ h.time, (hcalls.destPid e hne).trans h.dest,
      hcalls.passed.trans h.passed⟩

/-- The second of the two calls links its envelope before the first one: the walk passes only what has an earlier time. -/
theorem Outstanding.tied (h : Outstanding s₀ pid e₁ delay.toNat s M D)
    (hok : s.HandsOver (.delayedSend caller pid e₂ delay)) (hpos : 0 < delay)
    (hs : s.step (.delayedSend caller pid e₂ delay) = some s') : ∃ M' D', Tied s₀ pid e₁ e₂ s' M' D' := by
  have hl := hok.1 M D h.mail
  have hmem := mem_times_entries h.time
  obtain ⟨hcalls, -, hpid, a, b, rfl, hmail, hbefore, -⟩ := Timing.step_later h.mail hl hpos hs
  have hafter : e₁ ∈ b := by
    refine (List.mem_append.mp hmem).resolve_left fun ha => ?_
    have hnot : e₁ ∉ b := fun hb => (List.nodup_append.mp h.mail.delayed.nodup).2.2 e₁ ha e₁ hb rfl
    have htime := h.time
    rw [entries_append, Delta.times_append] at htime
    rcases List.mem_append.mp htime with htime | htime
    · rw [← hbefore] at htime
      have := Delta.lt_of_mem_seek htime
      omega
    · exact hnot (mem_times_entries htime)
  have hnone : s'.passedSince s₀ = [] := by
    unfold Timing.passedSince
    rw [hcalls.passed, h.passed, List.drop_length]
    rfl
  refine ⟨M, a ++ e₂ :: b, hcalls.table.own h.own, hmail, ⟨[], ?_⟩, ?_⟩
  · rw [List.append_nil, hcalls.passed, h.passed]
  · rw [hnone]
    refine .waiting ?_ ((hcalls.destPid e₁ fun he => hl.2 (he ▸ hmem)).trans h.dest) hpid List.not_mem_nil List.not_mem_nil
    exact ((List.singleton_sublist.mpr hafter).cons_cons e₂).trans (List.sublist_append_right a _)

/-- Later calls and iterations keep the order. -/
theorem Tied.step {ev : TimingEvent} (h : Tied s₀ pid e₁ e₂ s M D) (hok : s.HandsOver ev) (hs : s.step ev = some s') :
    ∃ M' D', Tied s₀ pid e₁ e₂ s' M' D' := by
  obtain ⟨later, hlater⟩ := h.passed
  have hkeep : s'.passed = s.passed → (∃ later, s'.passed = s₀.passed ++ later) ∧ s'.passedSince s₀ = s.passedSince s₀ :=
    fun heq => ⟨⟨later, heq.trans hlater⟩, by unfold Timing.passedSince; rw [heq]⟩
  cases ev with
  | delayedSend caller pid' e delay =>
    have hl := hok.1 M D h.mail
    have hdest : Calls s e s' → ∀ x ∈ D, (s'.kernel.mess x).destPid = (s.kernel.mess x).destPid := fun hcalls x hx =>
      hcalls.destPid x fun he => hl.2 (he ▸ hx)
    rcases Int.lt_or_le 0 delay with hpos | hle
    · obtain ⟨hcalls, -, -, a, b, rfl, hmail, -⟩ := Timing.step_later h.mail hl hpos hs
      obtain ⟨hpassed, hsince⟩ := hkeep hcalls.passed
      refine ⟨M, a ++ e :: b, hcalls.table.own h.own, hmail, hpassed, ?_⟩
      rw [hsince]
      exact h.tie.mono hcalls.table (hdest hcalls) ((List.Sublist.refl a).append (List.sublist_cons_self e b))
        fun p _ => .refl _
    · obtain ⟨hcalls, -, -, hmail⟩ := Timing.step_now h.own h.mail hl hle hs
      obtain ⟨hpassed, hsince⟩ := hkeep hcalls.passed
      refine ⟨_, D, hcalls.table.own h.own, hmail, hpassed, ?_⟩
      rw [hsince]
      refine h.tie.mono hcalls.table (hdest hcalls) (.refl D) fun p _ => ?_
      split
      · exact List.sublist_cons_self e (M p)
      · exact .refl _
  | iteration =>
    obtain ⟨D₁, D₂, k₁, hit⟩ := Timing.step_iteration h.own h.mail hs
    have htakes := hit.takes
    have hsince : s'.passedSince s₀ = s.passedSince s₀ ++ outgoing k₁ D₁ := by
      unfold Timing.passedSince
      rw [hit.passed, hlater, List.append_assoc, List.drop_left, List.drop_left, List.map_append, List.map_map]
      exact congrArg (_ ++ ·) (List.map_id _)
    refine ⟨_, D₂, hit.expires.table.own (htakes.table.own h.own), hit.expires.mail,
      ⟨_, by rw [hit.passed, hlater, List.append_assoc]⟩, ?_⟩
    rw [hsince]
    have htaken : Tie k₁ (Function.update M timerPid []) (D₁ ++ D₂) pid e₁ e₂ (s.passedSince s₀) := by
      refine h.tie.mono htakes.table (fun x hx => ?_) htakes.kept fun p hp => ?_
      · rw [htakes.destPid]
        exact if_neg (h.mail.apart timerPid x hx)
      · rw [Function.update_of_ne hp]
    exact htaken.expires htakes.mail.delayed.nodup hit.expires

theorem Tied.order (h : Tied s₀ pid e₁ e₂ s M D) (hne : e₁ ≠ e₂) :
    ¬Leads (pid, e₁) (pid, e₂) (s.passedSince s₀) ∧
      ((pid, e₁) ∈ s.passedSince s₀ → Leads (pid, e₂) (pid, e₁) (s.passedSince s₀)) := by
  have hpair : (pid, e₂) ≠ (pid, e₁) := fun heq => hne (Prod.mk.inj heq).2.symm
  cases h.tie with
  | waiting _ _ _ hP₁ _ =>
    refine ⟨fun hleads => ?_, fun hmem => absurd hmem hP₁⟩
    obtain ⟨a, b, hP, -⟩ := hleads
    exact hP₁ (hP ▸ List.mem_append_right a List.mem_cons_self)
  | second _ _ hP _ => exact ⟨hP.asymm hpair, fun _ => hP⟩
  | both hP _ => exact ⟨hP.asymm hpair, fun _ => hP⟩

theorem Tied.mailbox {dest : PcbRef} (h : Tied s₀ pid e₁ e₂ s M D) (hdest : getPcb s.kernel pid = some dest)
    (hne : dest ≠ timerPid) (hmem : e₁ ∈ M dest) : [e₁, e₂].Sublist (M dest) := by
  cases h.tie with
  | waiting hD _ _ _ _ => exact absurd hmem (h.mail.apart dest e₁ (hD.subset (List.mem_cons_of_mem e₂ List.mem_cons_self)))
  | second hD _ _ _ => exact absurd hmem (h.mail.apart dest e₁ hD)
  | both _ hM => exact hM dest hdest hne

end

/-- However the delayed messages stand, and whatever happens after the two calls: the message of the first call is never
    passed on before that of the second one. Once it has been, the other one has been before, and they are in the mailbox
    of the process that was found in that order. -/
theorem delayedSend_ties {s s' : Timing} {M : PcbRef → List Addr} {D : List Addr} {pid : Nat} {delay : Int}
    {caller₁ caller₂ : PcbRef} {e₁ e₂ : Addr} {between later : List TimingEvent} (hown : OwnMailboxes s.kernel)
    (hmail : Mail s.kernel M D) (hword : ∀ x ∈ D, (s.kernel.mess x).delay < 2 ^ 32) (hpos : 0 < delay)
    (hbetween : ∀ ev ∈ between, ev ≠ .iteration)
    (hok : Runs.Along Timing.step Timing.HandsOver s
      (.delayedSend caller₁ pid e₁ delay :: (between ++ .delayedSend caller₂ pid e₂ delay :: later)))
    (hs : Runs.exec Timing.step s
      (.delayedSend caller₁ pid e₁ delay :: (between ++ .delayedSend caller₂ pid e₂ delay :: later)) = some s') :
    ¬Leads (pid, e₁) (pid, e₂) (s'.passedSince s) ∧
      ((pid, e₁) ∈ s'.passedSince s → Leads (pid, e₂) (pid, e₁) (s'.passedSince s)) ∧
      ∀ M' D' dest, Mail s'.kernel M' D' → getPcb s'.kernel pid = some dest → dest ≠ timerPid → e₁ ∈ M' dest →
        [e₁, e₂].Sublist (M' dest) := by
  obtain ⟨s₁, h₁, hs⟩ := Option.bind_eq_some_iff.mp hs
  rw [Runs.exec_append] at hs
  obtain ⟨s₂, h₂, hs⟩ := Option.bind_eq_some_iff.mp hs
  obtain ⟨s₃, h₃, h₄⟩ := Option.bind_eq_some_iff.mp hs
  obtain ⟨hfirst, hok⟩ := hok s₁ h₁
  obtain ⟨hsecond, hlater⟩ := hok.right h₂ s₃ h₃
  have hword' : ∀ x ∈ entries s.kernel D, x.2 < 2 ^ 32 := fun x hx => by
    obtain ⟨y, hy, rfl⟩ := List.mem_map.mp hx
    exact hword y hy
  obtain ⟨D₁, hout₁⟩ := Timing.step_outstanding hown hmail hword' hfirst hpos h₁
  obtain ⟨M₂, D₂, hout₂⟩ := Runs.exec_invariant (I := fun t => ∃ M D, Outstanding s pid e₁ delay.toNat t M D)
    (fun t ev t' h hev ht => by
      obtain ⟨M, D, h⟩ := h
      cases ev with
      | delayedSend caller pid' e delay => exact h.call hev.1 ht
      | iteration => exact absurd rfl hev.2) ⟨M, D₁, hout₁⟩ (hok.left.and_forall hbetween) h₂
  have hne : e₁ ≠ e₂ := fun he => (hsecond.1 M₂ D₂ hout₂.mail).2 (he ▸ mem_times_entries hout₂.time)
  obtain ⟨M₃, D₃, htied⟩ := hout₂.tied hsecond hpos h₃
  obtain ⟨M₄, D₄, htied⟩ := Runs.exec_invariant (I := fun t => ∃ M D, Tied s pid e₁ e₂ t M D)
    (fun t ev t' h hev ht => by
      obtain ⟨M, D, h⟩ := h
      exact h.step hev ht) ⟨M₃, D₃, htied⟩ hlater h₄
  obtain ⟨hnever, hleads⟩ := htied.order hne
  refine ⟨hnever, hleads, fun M' D' dest hmail' hdest hnt hmem => ?_⟩
  obtain ⟨rfl, rfl⟩ := htied.mail.det hmail'
  exact htied.mailbox hdest hnt hmem

/-- Two messages for the CRT process with delay 2, just after the start, and two iterations. -/
theorem delayedSend_ties_at_boot :
    ∃ k s', boot rtosMap = .switched k ∧
      Runs.exec Timing.step (.start k)
        [.delayedSend wcPid crtPid.val firstBlock 2, .delayedSend wcPid crtPid.val secondBlock 2, .iteration, .iteration] =
          some s' ∧
      ¬Leads (crtPid.val, firstBlock) (crtPid.val, secondBlock) (s'.passedSince (.start k)) := by
  have hrun : ((boot rtosMap).kernel?.any fun k =>
      (Timing.step (.start k) (.delayedSend wcPid crtPid.val firstBlock 2)).any fun s =>
        decide (IsList s.kernel.messNext s.kernel.delayedSendQueue.head [firstBlock] ∧
          ∀ p, (s.kernel.mQueues p).head = none) &&
        (Runs.exec Timing.step s
          [.delayedSend wcPid crtPid.val secondBlock 2, .iteration, .iteration]).isSome) = true := by decide +kernel
  obtain ⟨k, hboot, h⟩ := boot_spec rtosMap
  rw [hboot, Outcome.kernel?_switched, Option.any_some] at hrun
  obtain ⟨s, hs, hall⟩ := Option.any_eq_true _ _ |>.mp hrun
  obtain ⟨hlist, hrest⟩ := Bool.and_eq_true _ _ |>.mp hall
  obtain ⟨hD, hboxes⟩ := of_decide_eq_true hlist
  obtain ⟨s', hs'⟩ := Option.isSome_iff_exists.mp hrest
  have hmail : Mail s.kernel (fun _ => []) [firstBlock] := ⟨.empty _ hboxes, hD, fun _ _ _ => List.not_mem_nil⟩
  have hexec := (congrArg (Option.bind · fun t => Runs.exec Timing.step t
    [.delayedSend wcPid crtPid.val secondBlock 2, .iteration, .iteration]) hs).trans hs'
  have hbetween : ∀ ev ∈ ([] : List TimingEvent), ev ≠ .iteration := fun _ hev => absurd hev List.not_mem_nil
  refine ⟨k, s', hboot, hexec, (delayedSend_ties (fun p mq hp => (h.calm.mailbox p mq hp).1) h.mail
    (fun _ hx => absurd hx List.not_mem_nil) (by decide) hbetween
    (fun s₁ hs₁ => ⟨⟨fun M D hmail₁ => ?_, by decide⟩, fun s₂ hs₂ => ⟨⟨fun M D hmail₁ => ?_, by decide⟩, ?_⟩⟩) hexec).1⟩
  · obtain ⟨rfl, rfl⟩ := h.mail.det hmail₁
    exact ⟨fun _ => List.not_mem_nil, List.not_mem_nil⟩
  · cases hs.symm.trans hs₁
    obtain ⟨rfl, rfl⟩ := hmail.det hmail₁
    exact ⟨fun _ => List.not_mem_nil, by decide⟩
  · exact fun _ _ => ⟨trivial, fun _ _ => ⟨trivial, trivial⟩⟩

/-- They reach the mailbox of the CRT process in the wrong order. -/
theorem delayedSend_reversed :
    ∃ k s', boot rtosMap = .switched k ∧
      Runs.exec Timing.step (.start k)
        [.delayedSend wcPid crtPid.val firstBlock 2, .delayedSend wcPid crtPid.val secondBlock 2, .iteration, .iteration] =
          some s' ∧
      s'.passed = [⟨2, crtPid.val, secondBlock⟩, ⟨2, crtPid.val, firstBlock⟩] ∧
      IsList s'.kernel.messNext (s'.kernel.mQueues crtPid).head [firstBlock, secondBlock] ∧
      ¬Leads (crtPid.val, firstBlock) (crtPid.val, secondBlock) (s'.passedSince (.start k)) := by
  have hrun : ((boot rtosMap).kernel?.any fun k => (Runs.exec Timing.step (.start k)
      [.delayedSend wcPid crtPid.val firstBlock 2, .delayedSend wcPid crtPid.val secondBlock 2, .iteration, .iteration]).any
        fun s => decide (s.passed = [⟨2, crtPid.val, secondBlock⟩, ⟨2, crtPid.val, firstBlock⟩] ∧
          IsList s.kernel.messNext (s.kernel.mQueues crtPid).head [firstBlock, secondBlock])) = true := by decide +kernel
  obtain ⟨k, hk, hall⟩ := Option.any_eq_true _ _ |>.mp hrun
  obtain ⟨s', hs', hend⟩ := Option.any_eq_true _ _ |>.mp hall
  obtain ⟨hpassed, hbox⟩ := of_decide_eq_true hend
  obtain ⟨k', hboot, -⟩ := boot_spec rtosMap
  rw [hboot, Outcome.kernel?_switched] at hk
  cases hk
  have hsince : s'.passedSince (.start k) = [(crtPid.val, secondBlock), (crtPid.val, firstBlock)] := by
    unfold Timing.passedSince
    rw [hpassed]
    rfl
  have hfirst : Leads (crtPid.val, secondBlock) (crtPid.val, firstBlock)
      [(crtPid.val, secondBlock), (crtPid.val, firstBlock)] :=
    ⟨[], [(crtPid.val, firstBlock)], rfl, List.not_mem_nil⟩
  exact ⟨k, s', hboot, hs', hpassed, hbox, hsince ▸ hfirst.asymm (by decide)⟩

end DoorRtos
