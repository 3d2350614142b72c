import DoorRtos.Runs
import Mathlib.Logic.Function.Basic

/-! Nodes that send each other messages. Every node has a mailbox, in which the messages to it wait in the order in which
    they have been sent. -/

namespace Network
open Runs

/-- What a node does in a step. -/
inductive Action (ι μ : Type) where
  | silent
  | send (dest : ι) (m : μ)
  | receive (m : μ)

/-- The nodes and their mailboxes, the oldest message first. -/
structure Config (ι σ μ : Type) where
  nodes : ι → σ
  mail : ι → List μ

/-- The steps of a run, each with its node. -/
abbrev Log (ι μ : Type) := List (ι × Action ι μ)

section
variable {ι σ μ : Type} [DecidableEq ι]

/-- What node `i` does. -/
inductive Step (step : ι → σ → Action ι μ → σ → Prop) : Config ι σ μ → ι × Action ι μ → Config ι σ μ → Prop
  | silent {c : Config ι σ μ} {i : ι} {s : σ} (h : step i (c.nodes i) .silent s) :
      Step step c (i, .silent) { c with nodes := Function.update c.nodes i s }
  | send {c : Config ι σ μ} {i j : ι} {m : μ} {s : σ} (h : step i (c.nodes i) (.send j m) s) :
      Step step c (i, .send j m) ⟨Function.update c.nodes i s, Function.update c.mail j (c.mail j ++ [m])⟩
  | receive {c : Config ι σ μ} {i : ι} {m : μ} {rest : List μ} {s : σ} (hm : c.mail i = m :: rest)
      (h : step i (c.nodes i) (.receive m) s) :
      Step step c (i, .receive m) ⟨Function.update c.nodes i s, Function.update c.mail i rest⟩

/-! ### What is seen of a run -/

/-- What node `i` has done. -/
def actionsOf (i : ι) (log : Log ι μ) : List (Action ι μ) := log.filterMap fun e => if e.1 = i then some e.2 else none

/-- The message that an action sends to node `j`. -/
def Action.sends (j : ι) : Action ι μ → Option μ
  | .send k m => if k = j then some m else none
  | _ => none

def Action.receives : Action ι μ → Option μ
  | .receive m => some m
  | _ => none

def sent (j : ι) (acts : List (Action ι μ)) : List μ := acts.filterMap (Action.sends j)

def received (acts : List (Action ι μ)) : List μ := acts.filterMap Action.receives

/-- The messages sent to node `j`, each with its sender. -/
def sentTo (j : ι) (log : Log ι μ) : List (ι × μ) := log.filterMap fun e => (e.2.sends j).map (e.1, ·)

variable {step : ι → σ → Action ι μ → σ → Prop} {c c' : Config ι σ μ} {log log' : Log ι μ} {i j : ι} {e : ι × Action ι μ}
  {acts acts' : List (Action ι μ)}

theorem actionsOf_cons : actionsOf i (e :: log) = (if e.1 = i then [e.2] else []) ++ actionsOf i log := by
  unfold actionsOf
  rw [List.filterMap_cons]
  split <;> split <;> simp_all

theorem actionsOf_append : actionsOf i (log ++ log') = actionsOf i log ++ actionsOf i log' := List.filterMap_append

@[simp] theorem sent_append : sent j (acts ++ acts') = sent j acts ++ sent j acts' := List.filterMap_append

omit [DecidableEq ι] in
@[simp] theorem received_append : received (acts ++ acts') = received acts ++ received acts' := List.filterMap_append

/-- Steps of a node that no other node sees. -/
def Quiet (acts : List (Action ι μ)) : Prop := ∀ a ∈ acts, a = .silent

omit [DecidableEq ι] in
theorem Quiet.nil : Quiet ([] : List (Action ι μ)) := fun _ ha => absurd ha List.not_mem_nil

omit [DecidableEq ι] in
theorem Quiet.silent : Quiet [(.silent : Action ι μ)] := fun _ ha => List.mem_singleton.mp ha

omit [DecidableEq ι] in
theorem Quiet.append (h : Quiet acts) (h' : Quiet acts') : Quiet (acts ++ acts') := fun a ha =>
  (List.mem_append.mp ha).elim (h a) (h' a)

theorem Quiet.sent (h : Quiet acts) (j : ι) : sent j acts = [] :=
  List.filterMap_eq_nil_iff.mpr fun a ha => by
    rw [h a ha]
    rfl

omit [DecidableEq ι] in
theorem Quiet.received (h : Quiet acts) : received acts = [] :=
  List.filterMap_eq_nil_iff.mpr fun a ha => by
    rw [h a ha]
    rfl

theorem sentTo_cons : sentTo j (e :: log) = ((e.2.sends j).map (e.1, ·)).toList ++ sentTo j log := by
  unfold sentTo
  rw [List.filterMap_cons]
  cases e.2.sends j <;> rfl

/-- Of the messages to node `j`, those of node `i` are the ones that it has sent, in order. -/
theorem sentTo_from (i j : ι) (log : Log ι μ) :
    ((sentTo j log).filter fun e => e.1 = i).map Prod.snd = sent j (actionsOf i log) := by
  induction log with
  | nil => rfl
  | cons e log ih =>
    rw [sentTo_cons, actionsOf_cons, sent_append, List.filter_append, List.map_append, ih]
    congr 1
    by_cases hi : e.1 = i
    · rw [if_pos hi]
      cases he : e.2.sends j <;> simp [sent, he, hi]
    · rw [if_neg hi]
      cases he : e.2.sends j <;> simp [sent, hi]

/-- A node that receives nothing can take its step. -/
theorem Step.of_node {a : Action ι μ} {s : σ} (h : step i (c.nodes i) a s) (ha : a.receives = none) :
    ∃ c', Step step c (i, a) c' ∧ c'.nodes = Function.update c.nodes i s ∧
      ∀ j, c'.mail j = c.mail j ++ (a.sends j).toList := by
  cases a with
  | silent => exact ⟨_, .silent h, rfl, fun j => (List.append_nil _).symm⟩
  | send k m =>
    refine ⟨_, .send h, rfl, fun j => ?_⟩
    by_cases hk : k = j
    · subst hk
      simp [Action.sends]
    · simp [Action.sends, hk, Function.update_of_ne (Ne.symm hk)]
  | receive m => cases ha

/-! ### What every run keeps -/

/-- Every node takes its own steps. -/
theorem actionsOf_path (h : Path (Step step) c log c') (i : ι) :
    Path (step i) (c.nodes i) (actionsOf i log) (c'.nodes i) := by
  induction h with
  | nil c => exact .nil _
  | @cons c c₁ c' e log hs _ ih =>
    have hnode : ∀ {k : ι} {a : Action ι μ} {s : σ}, step k (c.nodes k) a s → e = (k, a) →
        c₁.nodes = Function.update c.nodes k s → Path (step i) (c.nodes i) (actionsOf i (e :: log)) (c'.nodes i) := by
      intro k a s hk he hnodes
      rw [hnodes] at ih
      subst he
      rw [actionsOf_cons]
      by_cases hki : k = i
      · subst hki
        rw [Function.update_self] at ih
        rw [if_pos rfl]
        exact .cons hk ih
      · rw [Function.update_of_ne (Ne.symm hki)] at ih
        rwa [if_neg hki]
    cases hs with
    | silent h => exact hnode h rfl rfl
    | send h => exact hnode h rfl rfl
    | receive hm h => exact hnode h rfl rfl

/-- A step that receives nothing is not seen among the messages received. -/
theorem received_actionsOf {a : Action ι μ} (h : a.receives = none) : received (actionsOf j [(i, a)]) = [] := by
  by_cases hi : i = j <;> simp [actionsOf, received, hi, h]

theorem Step.mail_eq (h : Step step c e c') (j : ι) :
    c.mail j ++ (e.2.sends j).toList = received (if e.1 = j then [e.2] else []) ++ c'.mail j := by
  cases h with
  | silent h => split <;> exact List.append_nil _
  | @send i k m s h =>
    by_cases hk : k = j
    · subst hk
      by_cases hi : i = k <;> simp [Action.sends, received, Action.receives, hi]
    · by_cases hi : i = j <;> simp [Action.sends, received, Action.receives, hi, hk, Function.update_of_ne (Ne.symm hk)]
  | @receive i m rest s hm h =>
    by_cases hi : i = j
    · subst hi
      simp [Action.sends, received, Action.receives, hm]
    · simp [Action.sends, received, hi, Function.update_of_ne (Ne.symm hi)]

/-- What was in a mailbox and what has been sent there has been received, in this order, or is still in it. -/
theorem mail_eq (h : Path (Step step) c log c') (j : ι) :
    c.mail j ++ (sentTo j log).map Prod.snd = received (actionsOf j log) ++ c'.mail j := by
  induction h with
  | nil c => exact List.append_nil _
  | @cons c c₁ c' e log hs _ ih =>
    have hmap : (((e.2.sends j).map (e.1, ·)).toList).map Prod.snd = (e.2.sends j).toList := by
      cases e.2.sends j <;> rfl
    rw [sentTo_cons, actionsOf_cons, received_append, List.map_append, hmap, ← List.append_assoc, hs.mail_eq j,
      List.append_assoc, ih, List.append_assoc]

end
end Network
