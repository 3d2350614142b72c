import DoorRtos.Theorems.CrtOutput
import DoorRtos.Theorems.Pipeline

/-! The CRT process on the kernel: what waits at the UART is the output of the messages that have come to the process. -/

namespace DoorRtos
open Interaction Network Runs

/-- The first bytes of the messages. -/
def firstBytes (envs : List Envelope) : List Nat := envs.map fun env => (env.data 0).toNat

/-- A process that holds the blocks of `l` still holds them. -/
def Local.Keeps (l l' : Local) : Prop := ∀ b ∈ l.held, b ∈ l'.held

/-- The bytes `out` have been output so far, if the messages to the UART are not refused, and nothing has been received. -/
structure Prints (pids : PcbRef → Nat) (out : List Nat) (es : List (Action PcbRef Envelope)) : Prop where
  received : Network.received es = []
  bytes : pids uartPid = uartPid.val → firstBytes (Network.sent uartPid es) = out

/-- The part of a process outputs the bytes `out`, one by one, and keeps what the process holds. -/
def Outs {α : Type} (pids : PcbRef → Nat) (p : PcbRef) (code : Proc α) (out : List Nat) : Prop :=
  ∀ l, code.Spec (effect pids p) l (fun es => ∃ out', out' <+: out ∧ Prints pids out' es)
    fun es l' _ => Prints pids out es ∧ l.Keeps l'

/-- What has been output so far for the messages that have been received. -/
structure Displayed (got : List Envelope) (out : List Nat) : Prop where
  lower : got.dropLast.flatMap Envelope.expanded <+: out
  upper : out <+: got.flatMap Envelope.expanded

section
variable {pids : PcbRef → Nat} {p : PcbRef} {α β : Type} {code : Proc α} {f : α → Proc β} {out out₁ out₂ : List Nat}
  {es es' : List (Action PcbRef Envelope)} {l l' l'' : Local} {b e : Addr} {env : Envelope} {got : List Envelope}
  {n c : Nat} {prompt : Bool} {data : Nat → UInt8}

/-! ### The rules -/

theorem Prints.nil : Prints pids [] [] := ⟨rfl, fun _ => rfl⟩

theorem Prints.append (h : Prints pids out₁ es) (h' : Prints pids out₂ es') : Prints pids (out₁ ++ out₂) (es ++ es') where
  received := by rw [Network.received_append, h.received, h'.received, List.append_nil]
  bytes hu := by
    have h₁ := h.bytes hu
    have h₂ := h'.bytes hu
    unfold firstBytes at h₁ h₂ ⊢
    rw [sent_append, List.map_append, h₁, h₂]

theorem Prints.quiet (h : Quiet es) : Prints pids [] es :=
  ⟨h.received, fun _ => by rw [h.sent]; rfl⟩

theorem Outs.ret (a : α) : Outs pids p (return a) [] := fun _ => .ret ⟨[], List.prefix_refl _, .nil⟩ ⟨.nil, fun _ h => h⟩

theorem Outs.bind (h : Outs pids p code out₁) (hf : ∀ a, Outs pids p (f a) out₂) :
    Outs pids p (code >>= f) (out₁ ++ out₂) := by
  intro l
  refine Prog.Spec.bind ((h l).imp (fun es hes => ?_) fun _ _ _ h => h) fun es l' a hes => ?_
  · obtain ⟨out', hpre, hes⟩ := hes
    exact ⟨out', hpre.trans (List.prefix_append _ _), hes⟩
  · refine (hf a l').imp (fun es' hes' => ?_) fun es' l'' b hes' => ⟨hes.1.append hes'.1, fun x hx => hes'.2 x (hes.2 x hx)⟩
    obtain ⟨out', hpre, hes'⟩ := hes'
    exact ⟨out₁ ++ out', List.prefix_append_right_inj _ |>.mpr hpre, hes.1.append hes'⟩

/-- A part that other nodes do not see outputs nothing. -/
theorem Outs.quiet (h : ∀ l, code.Spec (effect pids p) l Quiet fun es l' _ => Quiet es ∧ l.Keeps l') :
    Outs pids p code [] :=
  fun l => (h l).imp (fun _ hes => ⟨[], List.prefix_refl _, .quiet hes⟩) fun _ _ _ hes => ⟨.quiet hes.1, hes.2⟩

theorem outs_requestMemoryBlock : Outs pids p requestMemoryBlock [] :=
  .quiet fun l => spec_requestMemoryBlock.imp (fun _ h => h) fun es l' b hes => ⟨hes.1, by
    obtain ⟨-, -, content, rfl⟩ := hes
    exact fun x hx => Local.mem_obtain.mpr (Or.inr hx)⟩

/-! ### One message -/

theorem outs_putChar (hc : c < 256) : Outs pids p (putChar c) [c] := by
  intro l
  have hunseen : Unseen fun es => ∃ out', out' <+: [c] ∧ Prints pids out' es := fun es es' hes h => by
    obtain ⟨out', hpre, h⟩ := h
    exact ⟨out', hpre, (Prints.quiet hes).append h⟩
  have hdone : ∀ l₀ : Local, ∀ l' (_ : Unit), Unseen fun es => Prints pids [c] es ∧ l₀.Keeps l' :=
    fun _ _ _ es es' hes h => ⟨(Prints.quiet hes).append h.1, h.2⟩
  have hnone : ∃ out', out' <+: [c] ∧ Prints pids out' [] := ⟨[], List.nil_prefix, .nil⟩
  refine Spec.quietly spec_requestMemoryBlock hunseen (hdone l) hnone ?_
  rintro _ b ⟨hnew, content, rfl⟩
  refine Spec.quietly (spec_store (by simp) (by decide)) hunseen (hdone l) hnone ?_
  rintro l₁ _ hl₁
  have hbyte : firstBytes [l₁.letter (pids p) b] = [c] := by
    simp [hl₁, firstBytes, Local.letter, Local.store_eq, Content.store, Nat.mod_eq_of_lt hc]
  have hposted : Prints pids [c] [posts pids p uartPid l₁ b] :=
    ⟨received_posts, fun hu => by rw [sent_posts hu, hbyte]⟩
  refine Prog.Spec.bind ((spec_sendMessage (by simp [hl₁, Local.store_eq])).imp (fun es hes => ?_) fun _ _ _ h => h) ?_
  · rcases hes with rfl | rfl
    · exact hnone
    · exact ⟨[c], List.prefix_refl _, hposted⟩
  · rintro _ _ _ ⟨rfl, rfl⟩
    refine (spec_write .serial1Imr).imp (fun es hes => ?_) fun es l' _ hes => ⟨?_, ?_⟩
    · exact ⟨[c], List.prefix_refl _, hposted.append (.quiet hes)⟩
    · exact hposted.append (.quiet hes.1)
    · rw [hes.2]
      intro x hx
      refine Local.mem_give.mpr ⟨?_, fun he => hnew (he ▸ hx)⟩
      rw [hl₁, Local.store_eq, Local.held_set]
      exact Local.mem_obtain.mpr (Or.inr hx)

theorem outs_putChars (cs : List Char) (hcs : ∀ c ∈ cs, c.toNat < 256) : Outs pids p (putChars cs) (cs.map Char.toNat) := by
  induction cs with
  | nil => exact .ret ()
  | cons c cs ih =>
    exact .bind (outs_putChar (hcs c List.mem_cons_self)) fun _ => ih fun d hd => hcs d (List.mem_cons_of_mem c hd)

theorem outs_displayByte (prompt : Bool) (c : UInt8) : Outs pids p (displayByte prompt c) (expansion prompt c) := by
  unfold displayByte expansion
  by_cases hc : c = carriageReturn
  · rw [if_pos hc, if_pos hc]
    have hprompt : Outs pids p (if prompt then fancyPrompt else pure () : Proc Unit)
        (if prompt then promptText else []) := by
      cases prompt with
      | true => exact outs_putChars _ (by simp)
      | false => exact .ret ()
    show Outs pids p _ (['\r'.toNat] ++ (['\n'.toNat] ++ ([] ++ if prompt then promptText else [])))
    exact .bind (outs_putChar (c := '\r'.toNat) (by decide)) fun _ =>
      .bind (outs_putChar (c := '\n'.toNat) (by decide)) fun _ =>
      .bind outs_requestMemoryBlock fun _ => hprompt
  · rw [if_neg hc, if_neg hc]
    exact outs_putChar c.toNat_lt

theorem outs_displayFrom (prompt : Bool) (data : Nat → UInt8) (n i : Nat) :
    Outs pids p (displayFrom prompt data n i) ((displayed data n i).flatMap (expansion prompt)) := by
  induction n generalizing i with
  | zero => exact .ret ()
  | succ n ih =>
    unfold displayFrom displayed
    by_cases hi : data i ≠ 0 ∧ i < messDataSize
    · rw [if_pos hi, if_pos hi]
      exact .bind (outs_displayByte prompt (data i)) fun _ => ih (i + 1)
    · rw [if_neg hi, if_neg hi]
      exact .ret ()

theorem outs_crtHandle (env : Envelope) : Outs pids p (crtHandle env) env.expanded := by
  have hdisplay : ∀ prompt, Outs pids p (display prompt env) (env.text.flatMap (expansion prompt)) := fun prompt => by
    have htext : displayed env.data (messDataSize + 1) 0 = env.text := by
      rw [displayed_eq (by omega) (Nat.zero_le _), ← List.range_eq_range']
      rfl
    exact htext ▸ outs_displayFrom prompt env.data (messDataSize + 1) 0
  unfold crtHandle Envelope.expanded
  split
  next => exact hdisplay true
  next =>
    split
    next => exact hdisplay false
    next => exact .ret ()

/-! ### The process -/

theorem Displayed.nil : Displayed [] [] := ⟨List.prefix_refl _, List.prefix_refl _⟩

/-- A message of which a part has been output. -/
theorem Displayed.one (h : out <+: env.expanded) : Displayed [env] out where
  lower := List.nil_prefix
  upper := by
    rw [List.flatMap_singleton]
    exact h

/-- A message in front that has been output wholly. -/
theorem Displayed.cons (h : Displayed got out) : Displayed (env :: got) (env.expanded ++ out) where
  lower := by
    cases got with
    | nil => exact List.nil_prefix
    | cons env' got =>
      rw [List.dropLast_cons_cons, List.flatMap_cons]
      exact List.prefix_append_right_inj _ |>.mpr h.lower
  upper := by
    rw [List.flatMap_cons]
    exact List.prefix_append_right_inj _ |>.mpr h.upper

theorem spec_crtProcess (n : Nat) : (crtProcess n).Spec (effect pids p) l
    (fun es => pids uartPid = uartPid.val →
      Displayed (Network.received es) (firstBytes (Network.sent uartPid es))) fun _ _ _ => True := by
  induction n generalizing l with
  | zero => exact .ret (fun _ => .nil) trivial
  | succ n ih =>
    unfold crtProcess serve
    refine Prog.Spec.bind (spec_receiveMessage.imp (fun es hes hu => ?_) fun _ _ _ h => h) ?_
    · rcases hes with rfl | ⟨env, rfl⟩
      · exact .nil
      · exact .one List.nil_prefix
    · rintro _ _ _ ⟨env, rfl, -, rfl, rfl⟩
      refine Prog.Spec.bind ((outs_crtHandle env _).imp (fun es hes hu => ?_) fun _ _ _ h => h) ?_
      · obtain ⟨out', hpre, hes⟩ := hes
        have hbytes := hes.bytes hu
        rw [Network.received_append, hes.received]
        exact .one (hbytes ▸ hpre)
      · rintro es l' _ ⟨hes, hkeeps⟩
        have hstep : ∀ es', (pids uartPid = uartPid.val →
            Displayed (Network.received es') (firstBytes (Network.sent uartPid es'))) →
            pids uartPid = uartPid.val → Displayed (Network.received ([.receive env] ++ (es ++ es')))
              (firstBytes (Network.sent uartPid ([.receive env] ++ (es ++ es')))) := fun es' h hu => by
          have hbytes := hes.bytes hu
          have hcons : Displayed (env :: Network.received es') (env.expanded ++ firstBytes (Network.sent uartPid es')) :=
            (h hu).cons
          rw [← hbytes] at hcons
          unfold firstBytes at hcons ⊢
          rw [← List.map_append] at hcons
          rw [sent_append, sent_append, Network.received_append, Network.received_append, hes.received]
          exact hcons
        refine Prog.Spec.imp (P := fun es => pids uartPid = uartPid.val →
          Displayed (Network.received es) (firstBytes (Network.sent uartPid es))) (Q := fun _ _ _ => True)
          (Spec.quietly (spec_releaseMemoryBlock (hkeeps _ (by simp)))
            (unseen_sent (S := fun sent got => pids uartPid = uartPid.val → Displayed got (firstBytes sent)))
            (fun _ _ => unseen_const) (fun _ => .nil) fun _ _ _ => ih) hstep fun _ _ _ _ => trivial

theorem crtProcess_careful (n : Nat) : Careful pids p (crtProcess n).code :=
  careful_of_spec fun _ => (spec_crtProcess n).imp (fun _ _ => trivial) fun _ _ _ h => h

end

/-- In every run, the bytes of the CRT process that have come to the UART, or wait for it there, are the output of the
    messages that the CRT process has received, one behind the other, of the last one perhaps only a part. -/
theorem display_reaches_uart (img : Layout) (contents : Addr → Content) (program : PcbRef → ClockProc Unit) (n : Nat)
    (hcrt : program crtPid = (crtProcess n).code) :
    ∃ k, boot img = .switched k ∧ ∀ turns s, (∀ p, p ≠ crtPid → Careful k.pids p (program p)) →
      Along Ensemble.step (fun s _ => s.Sound) (.start k contents program) turns →
      exec Ensemble.step (.start k contents program) turns = some s →
      ∃ w, s.Waiting uartPid w ∧ Displayed (s.receivedBy crtPid)
        (firstBytes ((s.receivedBy uartPid ++ w).filter fun env => env.senderPid = crtPid.val)) := by
  obtain ⟨k, hboot, h⟩ := boot_spec img
  refine ⟨k, hboot, fun turns s hcareful hok hs => ?_⟩
  have hall : ∀ p, Careful k.pids p (program p) := fun p => by
    by_cases hp : p = crtPid
    · rw [hp, hcrt]
      exact crtProcess_careful n
    · exact hcareful p hp
  obtain ⟨log, c, hfollows⟩ := (Ensemble.start_follows h contents program hall).run hok hs
  have hshows := hfollows.shows
  refine ⟨c.mail uartPid, hshows.waiting uartPid, ?_⟩
  have hspec := spec_actionsOf hfollows.path (i := crtPid) (by
    rw [hcrt]
    exact spec_code.mpr (spec_crtProcess n))
  rw [hshows.received, hshows.received, received_append_mail hfollows.path,
    filter_sender hfollows.path h.pids_eq (h.pids_of_ready (by decide))]
  exact hspec (h.started.created_iff.mpr (Or.inl (Or.inr rfl)))

/-- A process that sends the CRT process a letter. -/
def announcer (letter : Char) : Proc Unit := do
  let p ← requestMemoryBlock
  store p .type MessType.crtDisplayNoPrompt
  storeText p 0 [letter.toNat, 0]
  sendMessage crtPid p
  receiver 1

theorem announcer_careful (letter : Char) (pids : PcbRef → Nat) (p : PcbRef) : Careful pids p (announcer letter).code := by
  refine careful_of_spec fun l => ?_
  refine Spec.quietly spec_requestMemoryBlock unseen_const (fun _ _ => unseen_const) trivial ?_
  rintro _ b ⟨-, content, rfl⟩
  refine Spec.quietly (spec_store (by simp) trivial) unseen_const (fun _ _ => unseen_const) trivial ?_
  rintro _ _ rfl
  refine Spec.quietly (spec_storeText (by simp [Local.store_eq]) (Nat.le_of_ble_eq_true rfl)) unseen_const
    (fun _ _ => unseen_const) trivial ?_
  rintro _ _ rfl
  exact .bind ((spec_sendMessage (by simp [Local.store_eq])).imp (fun _ _ => trivial) fun _ _ _ h => h) fun _ _ _ _ =>
    spec_receiver 1

/-- The wall clock process sends the letter `A`. -/
def announcingPrograms (p : PcbRef) : ClockProc Unit :=
  if p = crtPid then (crtProcess 1).code
  else if p = wcPid then (announcer 'A').code
  else (receiver 1).code

/-- The letter has been displayed when the CRT process is through with it. -/
theorem display_reaches_uart_letter :
    ∃ k s w, boot rtosMap = .switched k ∧
      exec Ensemble.step (.start k (fun _ => ⟨0, fun _ => 0⟩) announcingPrograms)
        (List.replicate 8 wcPid ++ List.replicate 10 crtPid) = some s ∧
      (s.receivedBy crtPid).flatMap Envelope.expanded = ['A'.toNat] ∧ s.Waiting uartPid w ∧
      Displayed (s.receivedBy crtPid)
        (firstBytes ((s.receivedBy uartPid ++ w).filter fun env => env.senderPid = crtPid.val)) := by
  have hcareful : ∀ pids p, Careful pids p (announcingPrograms p) := fun pids p => by
    unfold announcingPrograms
    split_ifs
    · exact crtProcess_careful 1
    · exact announcer_careful 'A' pids p
    · exact careful_of_spec fun _ => spec_receiver 1
  obtain ⟨k, hboot, h⟩ := display_reaches_uart rtosMap (fun _ => ⟨0, fun _ => 0⟩) announcingPrograms 1 rfl
  have hrun : (((boot rtosMap).kernel?.bind fun k => exec (guarded Ensemble.step fun s _ => s.Sound)
      (.start k (fun _ => ⟨0, fun _ => 0⟩) announcingPrograms)
      (List.replicate 8 wcPid ++ List.replicate 10 crtPid)).any fun s =>
        decide ((s.receivedBy crtPid).flatMap Envelope.expanded = ['A'.toNat])) = true := by decide +kernel
  rw [hboot] at hrun
  obtain ⟨s, hs, hout⟩ := Option.any_eq_true _ _ |>.mp hrun
  obtain ⟨hok, hs⟩ := along_of_guarded hs
  obtain ⟨w, hw, hdisplayed⟩ := h _ s (fun p _ => hcareful k.pids p) hok hs
  exact ⟨k, s, w, hboot, hs, of_decide_eq_true hout, hw, hdisplayed⟩

end DoorRtos
