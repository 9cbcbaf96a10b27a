/-
  Programs that call their environment.

  `Prog Op Resp α` is a program that either returns or makes one call and goes on with its
  response. The program says nothing about what a call does. That is said twice, for two
  purposes:

  * by a handler (`run`), a function that answers a call or halts the machine there: for
    executing a program and looking at the calls it has made; `Returns` is an execution that
    is not halted;
  * by a `Semantics`, two relations: what a completed call may do, and which states of the
    world there may be while it lasts. `Runs` is a completed execution. `Visible` is any state
    of the world from the first to the last moment of an execution, so a power loss can leave
    exactly the visible states behind.

  `Crash P p C Q` is the triple for the second reading: started in `P`, every visible state is
  in `C` and a completed run ends in `Q`. Its rules follow the program (`Crash.ret`,
  `Crash.call`, `Crash.read`, `Crash.bind`). Where calls are themselves implemented by programs
  over a lower set of calls (`Semantics.via`), a triple of the implementation is one of the call
  (`Crash.via`). `Preserves I p` is the triple of an invariant.
-/
import Mathlib.Tactic

namespace CanBootloader.Lib

/-- A program over the calls `Op`, where the call `op` is answered by a `Resp op`. -/
inductive Prog (Op : Type) (Resp : Op → Type) (α : Type) : Type where
  | ret (a : α)
  | call (op : Op) (k : Resp op → Prog Op Resp α)

namespace Prog

variable {Op : Type} {Resp : Op → Type} {α β σ : Type}

def bind : Prog Op Resp α → (α → Prog Op Resp β) → Prog Op Resp β
  | ret a, f => f a
  | call op k, f => call op fun r => bind (k r) f

instance : Monad (Prog Op Resp) where
  pure := ret
  bind := bind

@[simp] theorem pure_def (a : α) : (pure a : Prog Op Resp α) = ret a := rfl

@[simp] theorem ret_bind (a : α) (f : α → Prog Op Resp β) : (ret a : Prog Op Resp α) >>= f = f a :=
  rfl

@[simp] theorem call_bind (op : Op) (k : Resp op → Prog Op Resp α) (f : α → Prog Op Resp β) :
    call op k >>= f = call op fun r => k r >>= f := rfl

/-! ## Handlers -/

/-- An execution: each call with the world it was made in, the world at the end, and the value
    returned (`none` if a call halted the machine). -/
structure Outcome (σ Op α : Type) where
  calls : List (σ × Op)
  world : σ
  value : Option α

/-- Execution under a handler; `none` halts. -/
def run (h : (op : Op) → σ → Option (Resp op × σ)) : Prog Op Resp α → σ → Outcome σ Op α
  | ret a, w => ⟨[], w, some a⟩
  | call op k, w =>
      match h op w with
      | none => ⟨[(w, op)], w, none⟩
      | some (r, w') =>
          let o := run h (k r) w'
          ⟨(w, op) :: o.calls, o.world, o.value⟩

variable (h : (op : Op) → σ → Option (Resp op × σ))

@[simp] theorem run_ret (a : α) (w : σ) :
    run h (ret a : Prog Op Resp α) w = ⟨[], w, some a⟩ := rfl

theorem run_call_none {op : Op} {k : Resp op → Prog Op Resp α} {w : σ} (hop : h op w = none) :
    run h (call op k) w = ⟨[(w, op)], w, none⟩ := by
  simp [run, hop]

theorem run_call_some {op : Op} {k : Resp op → Prog Op Resp α} {w v : σ} {r : Resp op}
    (hop : h op w = some (r, v)) :
    run h (call op k) w =
      ⟨(w, op) :: (run h (k r) v).calls, (run h (k r) v).world, (run h (k r) v).value⟩ := by
  simp [run, hop]

/-- The calls of a sequence: those of its first part, and then, if that returns, those of the
    second. -/
theorem run_bind_calls (p : Prog Op Resp α) (f : α → Prog Op Resp β) (w : σ) :
    (run h (p >>= f) w).calls = (run h p w).calls ++
      match (run h p w).value with
      | none => []
      | some a => (run h (f a) (run h p w).world).calls := by
  induction p generalizing w with
  | ret a => rfl
  | call op k ih =>
      rw [call_bind]
      cases hop : h op w with
      | none => rw [run_call_none h hop, run_call_none h hop]; rfl
      | some rw' =>
          obtain ⟨r, w'⟩ := rw'
          rw [run_call_some h hop, run_call_some h hop, ih r w']
          rfl

/-- Every call in the program, on any path, satisfies `P`. -/
def AllCalls (P : Op → Prop) : Prog Op Resp α → Prop
  | ret _ => True
  | call op k => P op ∧ ∀ r, AllCalls P (k r)

@[simp] theorem allCalls_ret (P : Op → Prop) (a : α) :
    AllCalls P (ret a : Prog Op Resp α) ↔ True := Iff.rfl

@[simp] theorem allCalls_call (P : Op → Prop) (op : Op) (k : Resp op → Prog Op Resp α) :
    AllCalls P (call op k) ↔ P op ∧ ∀ r, AllCalls P (k r) := Iff.rfl

theorem AllCalls.bind {P : Op → Prop} {p : Prog Op Resp α} {f : α → Prog Op Resp β}
    (hp : AllCalls P p) (hf : ∀ a, AllCalls P (f a)) : AllCalls P (p >>= f) := by
  induction p with
  | ret a => exact hf a
  | call op k ih => exact ⟨hp.1, fun r => ih r (hp.2 r)⟩

theorem AllCalls.mono {P Q : Op → Prop} {p : Prog Op Resp α} (hp : AllCalls P p)
    (h : ∀ op, P op → Q op) : AllCalls Q p := by
  induction p with
  | ret a => trivial
  | call op k ih => exact ⟨h op hp.1, fun r => ih r (hp.2 r)⟩

/-- A program that only makes `P` calls makes no others when run. -/
theorem AllCalls.run {P : Op → Prop} {p : Prog Op Resp α} (hp : AllCalls P p) (w : σ) :
    ∀ c ∈ (run h p w).calls, P c.2 := by
  induction p generalizing w with
  | ret a => simp
  | call op k ih =>
      cases hop : h op w with
      | none =>
          rw [run_call_none h hop]
          simpa using hp.1
      | some rw' =>
          obtain ⟨r, w'⟩ := rw'
          rw [run_call_some h hop]
          intro c hc
          rcases List.mem_cons.mp hc with rfl | hc
          · exact hp.1
          · exact ih r (hp.2 r) w' c hc

/-- Every value that the program can return satisfies `P`. -/
def AllValues (P : α → Prop) : Prog Op Resp α → Prop
  | ret a => P a
  | call _ k => ∀ r, AllValues P (k r)

@[simp] theorem allValues_ret (P : α → Prop) (a : α) :
    AllValues P (ret a : Prog Op Resp α) ↔ P a := Iff.rfl

@[simp] theorem allValues_call (P : α → Prop) (op : Op) (k : Resp op → Prog Op Resp α) :
    AllValues P (call op k) ↔ ∀ r, AllValues P (k r) := Iff.rfl

theorem AllValues.true (p : Prog Op Resp α) : AllValues (fun _ => True) p := by
  induction p with
  | ret a => trivial
  | call op k ih => exact ih

theorem AllValues.bind {P : α → Prop} {Q : β → Prop} {p : Prog Op Resp α}
    {f : α → Prog Op Resp β} (hp : AllValues P p) (hf : ∀ a, P a → AllValues Q (f a)) :
    AllValues Q (p >>= f) := by
  induction p with
  | ret a => exact hf a hp
  | call op k ih => exact fun r => ih r (hp r)

/-- So does the value of an execution. -/
theorem AllValues.run {P : α → Prop} {p : Prog Op Resp α} (hp : AllValues P p) {w : σ} {a : α}
    (ha : (run h p w).value = some a) : P a := by
  induction p generalizing w with
  | ret b => exact Option.some.inj ha ▸ hp
  | call op k ih =>
      cases hop : h op w with
      | none =>
          rw [run_call_none h hop] at ha
          exact absurd ha (by simp)
      | some rw' =>
          obtain ⟨r, w'⟩ := rw'
          rw [run_call_some h hop] at ha
          exact ih r (hp r) ha

/-! ## Executions that return -/

/-- The execution returns `a` and leaves the world `t`. -/
def Returns (p : Prog Op Resp α) (w : σ) (a : α) (t : σ) : Prop :=
  (run h p w).value = some a ∧ (run h p w).world = t

variable {h} {w v t : σ} {a : α}

theorem Returns.ret (a : α) (w : σ) : Returns h (Prog.ret a : Prog Op Resp α) w a w := ⟨rfl, rfl⟩

theorem Returns.call {op : Op} {k : Resp op → Prog Op Resp α} {r : Resp op}
    (hop : h op w = some (r, v)) (hk : Returns h (k r) v a t) :
    Returns h (Prog.call op k) w a t := by
  rw [Returns, run_call_some h hop]
  exact hk

/-- An execution that returns gets behind its first call. -/
theorem Returns.of_call {op : Op} {k : Resp op → Prog Op Resp α}
    (hp : Returns h (Prog.call op k) w a t) :
    ∃ r v, h op w = some (r, v) ∧ Returns h (k r) v a t := by
  cases hop : h op w with
  | none =>
      rw [Returns, run_call_none h hop] at hp
      exact absurd hp.1 (by simp)
  | some rw' =>
      obtain ⟨r, v⟩ := rw'
      rw [Returns, run_call_some h hop] at hp
      exact ⟨r, v, rfl, hp⟩

theorem Returns.bind {p : Prog Op Resp α} {f : α → Prog Op Resp β} {b : β}
    (hp : Returns h p w a v) (hf : Returns h (f a) v b t) : Returns h (p >>= f) w b t := by
  induction p generalizing w with
  | ret x =>
      obtain ⟨hvalue, rfl⟩ := hp
      obtain rfl : x = a := Option.some.inj hvalue
      exact hf
  | call op k ih =>
      obtain ⟨r, v, hop, hk⟩ := hp.of_call
      rw [call_bind]
      exact .call hop (ih r hk)

/-- So do both parts of a sequence. -/
theorem Returns.of_bind {p : Prog Op Resp α} {f : α → Prog Op Resp β} {b : β}
    (hp : Returns h (p >>= f) w b t) : ∃ a v, Returns h p w a v ∧ Returns h (f a) v b t := by
  induction p generalizing w with
  | ret a => exact ⟨a, w, .ret a w, hp⟩
  | call op k ih =>
      rw [call_bind] at hp
      obtain ⟨r, v, hop, hk⟩ := hp.of_call
      obtain ⟨a, u, hp, hf⟩ := ih r hk
      exact ⟨a, u, .call hop hp, hf⟩

/-- A program returns if all its calls are answered. -/
theorem AllCalls.returns {P : Op → Prop} {p : Prog Op Resp α} (hp : AllCalls P p)
    (hanswer : ∀ op w, P op → ∃ r v, h op w = some (r, v)) (w : σ) :
    ∃ a v, Returns h p w a v := by
  induction p generalizing w with
  | ret a => exact ⟨a, w, .ret a w⟩
  | call op k ih =>
      obtain ⟨r, u, hop⟩ := hanswer op w hp.1
      obtain ⟨a, v, hk⟩ := ih r (hp.2 r) u
      exact ⟨a, v, .call hop hk⟩

/-- There is one execution. -/
theorem Returns.unique {p : Prog Op Resp α} {b : α} (hp : Returns h p w a v)
    (hp' : Returns h p w b t) : a = b ∧ v = t :=
  ⟨Option.some.inj (hp.1.symm.trans hp'.1), hp.2.symm.trans hp'.2⟩

/-- The calls of a program whose value is only put into another form. -/
theorem run_bind_ret_calls (p : Prog Op Resp α) (f : α → β) (w : σ) :
    (run h (p >>= fun a => ret (f a)) w).calls = (run h p w).calls := by
  rw [run_bind_calls]
  cases (run h p w).value <;> simp

/-! ## Executions that can be cut -/

/-- What calls do to a world `σ`: `done op s r s'` when the call can complete with response `r`,
    `during op s s'` when `s'` can be seen before it completes. -/
structure Semantics (Op : Type) (Resp : Op → Type) (σ : Type) where
  done : (op : Op) → σ → Resp op → σ → Prop
  during : Op → σ → σ → Prop

variable (S : Semantics Op Resp σ)

/-- Completed executions. -/
def Runs : Prog Op Resp α → σ → α → σ → Prop
  | ret a, s, b, t => b = a ∧ t = s
  | call op k, s, b, t => ∃ r u, S.done op s r u ∧ Runs (k r) u b t

/-- The states of the world at any moment of an execution. -/
def Visible : Prog Op Resp α → σ → σ → Prop
  | ret _, s, t => t = s
  | call op k, s, t => t = s ∨ S.during op s t ∨ ∃ r u, S.done op s r u ∧ Visible (k r) u t

theorem Visible.start (p : Prog Op Resp α) (s : σ) : Visible S p s s := by
  cases p with
  | ret a => exact rfl
  | call op k => exact .inl rfl

variable {S} {p : Prog Op Resp α} {f : α → Prog Op Resp β} {s : σ}

/-- The calls of `T` can do all that those of `S` can. -/
instance : LE (Semantics Op Resp σ) where
  le S T := (∀ op s r t, S.done op s r t → T.done op s r t) ∧
    ∀ op s t, S.during op s t → T.during op s t

theorem Runs.mono {T : Semantics Op Resp σ} (hST : S ≤ T) (h : Runs S p s a t) :
    Runs T p s a t := by
  induction p generalizing s with
  | ret x => exact h
  | call op k ih =>
      obtain ⟨r, u, hu, hk⟩ := h
      exact ⟨r, u, hST.1 op s r u hu, ih r hk⟩

theorem Visible.mono {T : Semantics Op Resp σ} (hST : S ≤ T) (h : Visible S p s t) :
    Visible T p s t := by
  induction p generalizing s with
  | ret x => exact h
  | call op k ih =>
      rcases h with rfl | h | ⟨r, u, hu, hk⟩
      · exact .inl rfl
      · exact .inr (.inl (hST.2 op s t h))
      · exact .inr (.inr ⟨r, u, hST.1 op s r u hu, ih r hk⟩)

theorem Runs.bind {b : β} {u : σ} (hp : Runs S p s a u) (hf : Runs S (f a) u b t) :
    Runs S (p >>= f) s b t := by
  induction p generalizing s with
  | ret x =>
      obtain ⟨rfl, rfl⟩ := hp
      exact hf
  | call op k ih =>
      obtain ⟨r, v, hv, hk⟩ := hp
      exact ⟨r, v, hv, ih r hk⟩

theorem Runs.visible (h : Runs S p s a t) : Visible S p s t := by
  induction p generalizing s with
  | ret x => exact h.2
  | call op k ih =>
      obtain ⟨r, u, hu, hk⟩ := h
      exact .inr (.inr ⟨r, u, hu, ih r hk⟩)

/-- A handler whose answers the semantics allows on what it sees of the world: what the handler
    makes of a program is one of the executions. -/
theorem Returns.runs_map {τ : Type} {S : Semantics Op Resp τ} (f : σ → τ)
    (hdone : ∀ op w r v, h op w = some (r, v) → S.done op (f w) r (f v))
    (hp : Returns h p s a t) : Runs S p (f s) a (f t) := by
  induction p generalizing s with
  | ret x =>
      obtain ⟨hvalue, rfl⟩ := hp
      exact ⟨(Option.some.inj hvalue).symm, rfl⟩
  | call op k ih =>
      obtain ⟨r, v, hop, hk⟩ := hp.of_call
      exact ⟨r, f v, hdone op s r v hop, ih r hk⟩

/-- The same with all of the world. -/
theorem Returns.runs (hdone : ∀ op w r v, h op w = some (r, v) → S.done op w r v)
    (hp : Returns h p s a t) : Runs S p s a t :=
  hp.runs_map id hdone

/-- What is visible in the first part of a sequence. -/
theorem Visible.bind_left (h : Visible S p s t) : Visible S (p >>= f) s t := by
  induction p generalizing s with
  | ret x =>
      obtain rfl : t = s := h
      exact Visible.start S (f x) t
  | call op k ih =>
      rcases h with rfl | h | ⟨r, v, hv, hk⟩
      · exact Visible.start S _ t
      · exact .inr (.inl h)
      · exact .inr (.inr ⟨r, v, hv, ih r hk⟩)

variable (S)

/-- Started in `P`, every visible state is in `C`, and a completed run ends in `Q`. -/
def Crash (P : σ → Prop) (p : Prog Op Resp α) (C : σ → Prop) (Q : α → σ → Prop) : Prop :=
  ∀ s, P s → (∀ t, Visible S p s t → C t) ∧ ∀ a t, Runs S p s a t → Q a t

namespace Crash

variable {S} {P : σ → Prop} {C : σ → Prop} {Q : α → σ → Prop}

theorem ret {a : α} (hC : ∀ s, P s → C s) (hQ : ∀ s, P s → Q a s) :
    Crash S P (Prog.ret a) C Q := by
  intro s hs
  refine ⟨?_, ?_⟩
  · rintro t rfl
    exact hC t hs
  · rintro b t ⟨rfl, rfl⟩
    exact hQ t hs

/-- One call: `C` must hold before it and while it lasts, and `R r` after it. -/
theorem call {op : Op} {k : Resp op → Prog Op Resp α} (R : Resp op → σ → Prop)
    (hC : ∀ s, P s → C s) (hduring : ∀ s t, P s → S.during op s t → C t)
    (hdone : ∀ s r t, P s → S.done op s r t → R r t)
    (hk : ∀ r, Crash S (R r) (k r) C Q) : Crash S P (Prog.call op k) C Q := by
  intro s hs
  refine ⟨?_, ?_⟩
  · rintro t (rfl | ht | ⟨r, u, hu, ht⟩)
    · exact hC t hs
    · exact hduring s t hs ht
    · exact (hk r u (hdone s r u hs hu)).1 t ht
  · rintro a t ⟨r, u, hu, ht⟩
    exact (hk r u (hdone s r u hs hu)).2 a t ht

/-- A call that leaves the world alone, and whose response is related to it by `R`. -/
theorem read {op : Op} {k : Resp op → Prog Op Resp α} (R : Resp op → σ → Prop)
    (hdone : ∀ s r t, S.done op s r t → t = s ∧ R r s) (hduring : ∀ s t, ¬ S.during op s t)
    (hC : ∀ s, P s → C s) (hk : ∀ r, Crash S (fun s => P s ∧ R r s) (k r) C Q) :
    Crash S P (Prog.call op k) C Q := by
  refine .call (fun r s => P s ∧ R r s) hC (fun s t _ ht => (hduring s t ht).elim) ?_ hk
  intro s r t hs ht
  obtain ⟨rfl, hr⟩ := hdone s r t ht
  exact ⟨hs, hr⟩

/-- The same without a use of the response. -/
theorem silent {op : Op} {k : Resp op → Prog Op Resp α}
    (hdone : ∀ s r t, S.done op s r t → t = s) (hduring : ∀ s t, ¬ S.during op s t)
    (hC : ∀ s, P s → C s) (hk : ∀ r, Crash S P (k r) C Q) : Crash S P (Prog.call op k) C Q := by
  refine .call (fun _ => P) hC (fun s t _ ht => (hduring s t ht).elim) ?_ hk
  intro s r t hs ht
  rw [hdone s r t ht]
  exact hs

theorem bind {p : Prog Op Resp α} {f : α → Prog Op Resp β} {R : β → σ → Prop}
    (hp : Crash S P p C Q) (hf : ∀ a, Crash S (Q a) (f a) C R) : Crash S P (p >>= f) C R := by
  induction p generalizing P with
  | ret a =>
      intro s hs
      exact hf a s ((hp s hs).2 a s ⟨rfl, rfl⟩)
  | call op k ih =>
      intro s hs
      obtain ⟨hvis, hrun⟩ := hp s hs
      have hk : ∀ r u, S.done op s r u → Crash S (fun x => x = u) (k r) C Q := by
        rintro r u hu x rfl
        exact ⟨fun t ht => hvis t (.inr (.inr ⟨r, x, hu, ht⟩)),
          fun a t ht => hrun a t ⟨r, x, hu, ht⟩⟩
      refine ⟨?_, ?_⟩
      · rintro t (rfl | ht | ⟨r, u, hu, ht⟩)
        · exact hvis t (.inl rfl)
        · exact hvis t (.inr (.inl ht))
        · exact (ih r (hk r u hu) u rfl).1 t ht
      · rintro b t ⟨r, u, hu, ht⟩
        exact (ih r (hk r u hu) u rfl).2 b t ht

theorem weaken {P' : σ → Prop} {C' : σ → Prop} {Q' : α → σ → Prop} {p : Prog Op Resp α}
    (h : Crash S P p C Q) (hP : ∀ s, P' s → P s) (hC : ∀ s, C s → C' s)
    (hQ : ∀ a s, Q a s → Q' a s) : Crash S P' p C' Q' := by
  intro s hs
  obtain ⟨hvis, hrun⟩ := h s (hP s hs)
  exact ⟨fun t ht => hC t (hvis t ht), fun a t ht => hQ a t (hrun a t ht)⟩

/-- A precondition that is one of several. -/
theorem of_exists {ι : Type} {P : ι → σ → Prop} {p : Prog Op Resp α}
    (h : ∀ i, Crash S (P i) p C Q) : Crash S (fun s => ∃ i, P i s) p C Q := by
  rintro s ⟨i, hs⟩
  exact h i s hs

end Crash

/-! ## Interrupts -/

/-- A relation that keeps a property. -/
def Stable (interrupt : σ → σ → Prop) (P : σ → Prop) : Prop := ∀ s t, P s → interrupt s t → P t

theorem Stable.reflTransGen {interrupt : σ → σ → Prop} {P : σ → Prop} (h : Stable interrupt P)
    {s t : σ} (hs : P s) (ht : Relation.ReflTransGen interrupt s t) : P t := by
  induction ht with
  | refl => exact hs
  | tail _ hstep ih => exact h _ _ ih hstep

/-- Calls that are single accesses, with any number of interrupts before each. -/
def Semantics.interrupted (interrupt : σ → σ → Prop) (access : (op : Op) → σ → Resp op × σ) :
    Semantics Op Resp σ where
  done op s r t := ∃ m, Relation.ReflTransGen interrupt s m ∧ access op m = (r, t)
  during _ s t := Relation.ReflTransGen interrupt s t

/-- An access, from a precondition that interrupts keep. -/
theorem Crash.access {interrupt : σ → σ → Prop} {access : (op : Op) → σ → Resp op × σ}
    {P C : σ → Prop} {Q : α → σ → Prop} {op : Op} {k : Resp op → Prog Op Resp α}
    (R : Resp op → σ → Prop) (hP : Stable interrupt P) (hC : ∀ s, P s → C s)
    (hop : ∀ s, P s → R (access op s).1 (access op s).2)
    (hk : ∀ r, Crash (.interrupted interrupt access) (R r) (k r) C Q) :
    Crash (.interrupted interrupt access) P (Prog.call op k) C Q := by
  refine .call R hC (fun s t hs ht => hC t (hP.reflTransGen hs ht)) ?_ hk
  rintro s r t hs ⟨m, hm, haccess⟩
  have hR := hop m (hP.reflTransGen hs hm)
  rwa [haccess] at hR

/-! ## Calls implemented by programs -/

variable {Op' : Type} {Resp' : Op' → Type}

/-- What calls do that are implemented by programs over the calls of `S`. -/
def Semantics.via (S : Semantics Op Resp σ) (impl : (op : Op') → Prog Op Resp (Resp' op)) :
    Semantics Op' Resp' σ where
  done op s r t := Runs S (impl op) s r t
  during op s t := Visible S (impl op) s t

variable {S} {impl : (op : Op') → Prog Op Resp (Resp' op)}

theorem Semantics.via_mono {T : Semantics Op Resp σ} (h : S ≤ T) : S.via impl ≤ T.via impl :=
  ⟨fun _ _ _ _ hdone => Runs.mono h hdone, fun _ _ _ hduring => Visible.mono h hduring⟩

theorem Crash.via {P : σ → Prop} {C : σ → Prop} {Q : α → σ → Prop} {op : Op'}
    {k : Resp' op → Prog Op' Resp' α} {R : Resp' op → σ → Prop} (himpl : Crash S P (impl op) C R)
    (hk : ∀ r, Crash (S.via impl) (R r) (k r) C Q) :
    Crash (S.via impl) P (Prog.call op k) C Q :=
  .call R (fun s hs => (himpl s hs).1 s (Visible.start S _ s)) (fun s t hs => (himpl s hs).1 t)
    (fun s r t hs => (himpl s hs).2 r t) hk

/-! ## Invariants -/

variable (S)

/-- `I` holds at every moment of an execution that begins in it. -/
def Preserves (I : σ → Prop) (p : Prog Op Resp α) : Prop := Crash S I p I fun _ => I

namespace Preserves

variable {S} {I : σ → Prop}

theorem ret (a : α) : Preserves S I (Prog.ret a) := Crash.ret (fun _ h => h) fun _ h => h

theorem call {op : Op} {k : Resp op → Prog Op Resp α}
    (hduring : ∀ s t, I s → S.during op s t → I t)
    (hdone : ∀ s r t, I s → S.done op s r t → I t) (hk : ∀ r, Preserves S I (k r)) :
    Preserves S I (Prog.call op k) :=
  Crash.call (fun _ => I) (fun _ h => h) hduring hdone hk

theorem bind {p : Prog Op Resp α} {f : α → Prog Op Resp β} (hp : Preserves S I p)
    (hf : ∀ a, Preserves S I (f a)) : Preserves S I (p >>= f) :=
  Crash.bind hp hf

theorem via {op : Op'} {k : Resp' op → Prog Op' Resp' α} (himpl : Preserves S I (impl op))
    (hk : ∀ r, Preserves (S.via impl) I (k r)) : Preserves (S.via impl) I (Prog.call op k) :=
  Crash.via himpl hk

/-- A program all of whose calls keep the invariant. -/
theorem of_allCalls {P : Op → Prop} {p : Prog Op Resp α} (hp : AllCalls P p)
    (hduring : ∀ op s t, P op → I s → S.during op s t → I t)
    (hdone : ∀ op s r t, P op → I s → S.done op s r t → I t) : Preserves S I p := by
  induction p with
  | ret a => exact .ret a
  | call op k ih =>
      exact .call (fun s t => hduring op s t hp.1) (fun s r t => hdone op s r t hp.1)
        fun r => ih r (hp.2 r)

end Preserves

end Prog

end CanBootloader.Lib
