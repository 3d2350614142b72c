import DoorRtos.Producers
import DoorRtos.Theorems.Statements

/-! The producers and the relays of the stress test as nodes of the network: the one sends reports in the order of their
    numbers, the other passes on what it receives. -/

namespace DoorRtos
open Interaction Network

/-- The numbers of `n` reports, counted from `num` on. -/
def reportsFrom (num : UInt32) (n : Nat) : List (Option UInt32) := (List.range n).map fun i => some (num + UInt32.ofNat i)

/-- What a process can read of a message besides its sender. -/
def Envelope.content (env : Envelope) : Content := ⟨env.type, env.data⟩

/-- What has been received has been passed on as it was, in the same order, all of it or all but the last message. -/
structure Relayed (got passed : List Envelope) : Prop where
  order : passed.map Envelope.content <+: got.map Envelope.content
  rest : got.length ≤ passed.length + 1

section
variable {pids : PcbRef → Nat} {p d j : PcbRef} {l : Local} {e : Addr} {num : UInt32} {n : Nat} {c : Content}
  {got passed : List Envelope} {env env' : Envelope} {α β : Type} {code : Proc α} {f : α → Proc β} {R : Local → α → Prop}

/-! ### The reports -/

theorem reportsFrom_succ (num : UInt32) (n : Nat) : reportsFrom num (n + 1) = some num :: reportsFrom (num + 1) n := by
  unfold reportsFrom
  rw [List.range_succ_eq_map, List.map_cons, List.map_map]
  congr 1
  · simp
  · refine List.map_congr_left fun i _ => congrArg some ?_
    show num + UInt32.ofNat (i + 1) = num + 1 + UInt32.ofNat i
    rw [UInt32.ofNat_add]
    ac_rfl

/-- The four bytes of a word make up the word. -/
theorem wordAt_wordBytes (c : Content) (num : UInt32) : wordAt (c.storeText 0 (wordBytes num)).data = num := by
  have hlt := num.toNat_lt
  unfold wordAt
  simp only [wordBytes, Content.storeText, Content.store, Function.update]
  refine UInt32.toNat_inj.mp ?_
  simp
  omega

theorem storeText_type (c : Content) (i : Nat) (text : List Nat) : (c.storeText i text).type = c.type := by
  induction text generalizing c i with
  | nil => rfl
  | cons x xs ih => exact ih _ _

theorem report_content :
    env.report = if env.content.type = MessType.countReport then some (wordAt env.content.data) else none :=
  rfl

theorem report_letter {pid : Nat} (h : l.memory e = c.storeText 0 (wordBytes num)) (ht : c.type = MessType.countReport) :
    (l.letter pid e).report = some num := by
  rw [report_content]
  unfold Local.letter Envelope.content
  rw [h, storeText_type, ht, if_pos rfl, wordAt_wordBytes]

/-! ### A part that sends nothing to a process -/

/-- A part of a process that sends nothing to process `j`, and the rest. -/
theorem Spec.apart {S : List Envelope → Prop}
    (hcode : code.Spec (effect pids p) l (fun es => Network.sent j es = []) fun es l' a => Network.sent j es = [] ∧ R l' a)
    (hnil : S [])
    (hf : ∀ l' a, R l' a → (f a).Spec (effect pids p) l' (fun es => S (Network.sent j es)) fun _ _ _ => True) :
    (code >>= f).Spec (effect pids p) l (fun es => S (Network.sent j es)) fun _ _ _ => True := by
  refine Prog.Spec.bind (hcode.imp (fun es hes => by rw [hes]; exact hnil) fun _ _ _ h => h) fun es l' a h =>
    (hf l' a h.2).imp (fun es' hes' => ?_) fun _ _ _ _ => trivial
  rw [sent_append, h.1, List.nil_append]
  exact hes'

theorem spec_registerCommand {currentPid command : Nat} (hj : kcdPid ≠ j) :
    (registerCommand currentPid command).Spec (effect pids p) l (fun es => Network.sent j es = [])
      fun es _ _ => Network.sent j es = [] := by
  have hunseen : Unseen fun es => Network.sent j es = [] := unseen_sent (S := fun sent _ => sent = [])
  refine Spec.quietly spec_requestMemoryBlock hunseen (fun _ _ => hunseen) rfl ?_
  rintro _ b ⟨-, content, rfl⟩
  refine Spec.quietly (spec_store (by simp) trivial) hunseen (fun _ _ => hunseen) rfl ?_
  rintro _ _ rfl
  refine Spec.quietly (spec_store (by simp [Local.store_eq]) trivial) hunseen (fun _ _ => hunseen) rfl ?_
  rintro _ _ rfl
  refine Spec.quietly (spec_store (by simp [Local.store_eq]) (by decide)) hunseen (fun _ _ => hunseen) rfl ?_
  rintro _ _ rfl
  refine (spec_sendMessage (by simp [Local.store_eq])).imp (fun es hes => ?_) fun es _ _ hes => ?_
  · rcases hes with rfl | rfl
    · rfl
    · exact sent_posts_of_ne hj
  · rw [hes.1]
    exact sent_posts_of_ne hj

theorem spec_awaitCommand (command : Char) (n : Nat) : (awaitCommand command n).Spec (effect pids p) l
    (fun es => Network.sent j es = []) fun es _ _ => Network.sent j es = [] := by
  have hunseen : Unseen fun es => Network.sent j es = [] := unseen_sent (S := fun sent _ => sent = [])
  induction n generalizing l with
  | zero => exact .ret rfl rfl
  | succ n ih =>
    refine Prog.Spec.bind (spec_receiveMessage.imp (fun es hes => ?_) fun _ _ _ h => h) ?_
    · rcases hes with rfl | ⟨env, rfl⟩ <;> rfl
    · rintro _ _ _ ⟨env, rfl, -, rfl, rfl⟩
      dsimp only
      split
      · exact Spec.quietly (spec_releaseMemoryBlock (by simp)) hunseen (fun _ _ => hunseen) rfl fun _ _ _ => .ret rfl rfl
      · exact Spec.quietly (spec_releaseMemoryBlock (by simp)) hunseen (fun _ _ => hunseen) rfl fun _ _ _ => ih

/-! ### Counting -/

/-- What has been sent to the relay are reports, counted from `num` on. -/
def Counts (num : UInt32) (sent : List Envelope) : Prop := sent.map Envelope.report = reportsFrom num sent.length

theorem Counts.cons (h : Counts (num + 1) got) (henv : env.report = some num) : Counts num (env :: got) := by
  unfold Counts at h ⊢
  rw [List.map_cons, List.length_cons, reportsFrom_succ, h, henv]

theorem spec_countReports (n : Nat) (num : UInt32) : (countReports d n num).Spec (effect pids p) l
    (fun es => pids d = d.val → Counts num (Network.sent d es)) fun _ _ _ => True := by
  induction n generalizing num l with
  | zero => exact .ret (fun _ => rfl) trivial
  | succ n ih =>
    have hunseen : ∀ num, Unseen fun es => pids d = d.val → Counts num (Network.sent d es) := fun num =>
      unseen_sent (S := fun sent _ => pids d = d.val → Counts num sent)
    refine Spec.quietly spec_requestMemoryBlock (hunseen num) (fun _ _ => unseen_const) (fun _ => rfl) ?_
    rintro _ b ⟨-, content, rfl⟩
    refine Spec.quietly (spec_store (by simp) trivial) (hunseen num) (fun _ _ => unseen_const) (fun _ => rfl) ?_
    rintro _ _ rfl
    refine Spec.quietly (spec_storeText (by simp [Local.store_eq]) (Nat.le_of_ble_eq_true rfl)) (hunseen num)
      (fun _ _ => unseen_const) (fun _ => rfl) ?_
    rintro l' _ hl'
    have hheld : b ∈ l'.held := by simp [hl', Local.store_eq]
    have hreport : (l'.letter (pids p) b).report = some num := by
      rw [hl']
      exact report_letter (Local.memory_set ..) (by simp [Local.store_eq, Content.store])
    refine Prog.Spec.bind ((spec_sendMessage hheld).imp (fun es hes hd => ?_) fun _ _ _ h => h) ?_
    · rcases hes with rfl | rfl
      · rfl
      · rw [sent_posts hd]
        exact Counts.cons rfl hreport
    · rintro _ _ _ ⟨rfl, rfl⟩
      -- The rest counts from the next number on.
      refine Prog.Spec.imp (P := fun es => pids d = d.val → Counts (num + 1) (Network.sent d es)) (Q := fun _ _ _ => True)
        (Spec.quietly spec_releaseProcessor (hunseen (num + 1)) (fun _ _ => unseen_const) (fun _ => rfl) fun _ _ _ =>
          ih (num + 1)) (fun es hes hd => ?_) fun _ _ _ _ => trivial
      rw [sent_append, sent_posts hd]
      exact (hes hd).cons hreport

theorem spec_producer {command : Char} (hkcd : kcdPid ≠ d) (currentPid m n : Nat) :
    (producer currentPid command d m n).Spec (effect pids p) l (fun es => pids d = d.val → Counts 0 (Network.sent d es))
      fun _ _ _ => True := by
  refine Spec.quietly spec_requestMemoryBlock (unseen_sent (S := fun sent _ => pids d = d.val → Counts 0 sent))
    (fun _ _ => unseen_const) (fun _ => rfl) ?_
  rintro _ b -
  refine Spec.apart (S := fun sent => pids d = d.val → Counts 0 sent)
    ((spec_registerCommand hkcd).imp (fun _ h => h) fun _ _ _ h => ⟨h, trivial⟩) (fun _ => rfl) ?_
  rintro l' _ -
  refine Spec.apart (S := fun sent => pids d = d.val → Counts 0 sent)
    ((spec_awaitCommand command m).imp (fun _ h => h) fun _ _ _ h => ⟨h, trivial⟩) (fun _ => rfl) ?_
  rintro l' commanded -
  cases commanded with
  | true => exact spec_countReports n 0
  | false => exact .ret (fun _ => rfl) trivial

/-! ### Passing on -/

theorem Relayed.nil : Relayed [] [] := ⟨List.prefix_refl _, Nat.le_succ _⟩

theorem Relayed.one (env : Envelope) : Relayed [env] [] := ⟨List.nil_prefix, Nat.le_refl _⟩

theorem Relayed.cons (h : Relayed got passed) (henv : env'.content = env.content) :
    Relayed (env :: got) (env' :: passed) where
  order := by
    rw [List.map_cons, List.map_cons, henv]
    exact List.prefix_cons_inj _ |>.mpr h.order
  rest := by
    have := h.rest
    simp only [List.length_cons]
    omega

theorem spec_relay (n : Nat) : (relay d n).Spec (effect pids p) l
    (fun es => pids d = d.val → Relayed (Network.received es) (Network.sent d es)) fun _ _ _ => True := by
  induction n generalizing l with
  | zero => exact .ret (fun _ => .nil) trivial
  | succ n ih =>
    refine Prog.Spec.bind (spec_receiveMessage.imp (fun es hes hd => ?_) fun _ _ _ h => h) ?_
    · rcases hes with rfl | ⟨env, rfl⟩
      · exact .nil
      · exact .one env
    · rintro _ _ _ ⟨env, rfl, -, rfl, rfl⟩
      have hletter : ((l.obtain env.addr ⟨env.type, env.data⟩).letter (pids p) env.addr).content = env.content := by
        simp [Local.letter, Envelope.content]
      refine Prog.Spec.bind ((spec_sendMessage (by simp)).imp (fun es hes hd => ?_) fun _ _ _ h => h) ?_
      · rcases hes with rfl | rfl
        · exact .one env
        · rw [sent_append, Network.received_append, sent_posts hd, received_posts]
          exact .cons .nil hletter
      · rintro _ _ _ ⟨rfl, rfl⟩
        refine ih.imp (fun es hes hd => ?_) fun _ _ _ _ => trivial
        rw [sent_append, sent_append, sent_posts hd, Network.received_append, Network.received_append, received_posts]
        exact (hes hd).cons hletter

end
end DoorRtos
