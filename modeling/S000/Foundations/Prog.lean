import Mathlib.Data.List.Infix

/-!
# Foundations/Prog — programs that call a machine

A request handler is a program that calls its stores, one call at a time, and goes on with what a
call returns.  `Prog` is the tree of such calls, over any interface.  A `Machine` answers a call in a
world, under a fault that the environment chooses; `exec` runs a program to its end, `eval` runs it
without faults, and `runPool` lets several programs take turns.  Runs record their calls as events, and
the world a run reaches depends on its events alone (`exec_events`).

`Only` speaks about the tree alone: which calls a program makes and what it returns, as long as the
answers satisfy an assumption.  Such a fact, together with an invariant that those calls preserve, is
one about every run (`exec_of_only`) and about every way to take turns (`runPool_of_guarded`).  `Ensures`
speaks about a program and the world it starts in, and `EnsuresWhen` does so for the runs in which
only certain things go wrong.
-/

namespace S000

open List

/-- Calls, and what each returns. -/
structure Interface where
  Op : Type
  Val : Op → Type

/-- A program: a result, or a call and how to go on. -/
inductive Prog (I : Interface) (α : Type) : Type
  | ret (a : α)
  | call (o : I.Op) (k : I.Val o → Prog I α)

namespace Prog

variable {I : Interface} {α β : Type}

def bind (p : Prog I α) (g : α → Prog I β) : Prog I β :=
  match p with
  | ret a => g a
  | call o k => call o fun v => (k v).bind g

instance : Monad (Prog I) where
  pure := ret
  bind := bind

def op (o : I.Op) : Prog I (I.Val o) := call o ret

def result? : Prog I α → Option α
  | ret a => some a
  | call _ _ => none

/-- A program over one interface, with each call answered by a program over another. -/
def translate {J : Interface} (h : (o : I.Op) → Prog J (I.Val o)) : Prog I α → Prog J α
  | ret a => ret a
  | call o k => (h o).bind fun v => (k v).translate h

variable {g : α → Prog I β}

theorem bind_assoc {γ : Type} {h : β → Prog I γ} :
    ∀ p, (p >>= g) >>= h = p >>= fun a => g a >>= h
  | ret _ => rfl
  | call o k => congrArg (call o) (funext fun v => bind_assoc (k v))

variable {J : Interface} {h : (o : I.Op) → Prog J (I.Val o)}

theorem translate_bind :
    ∀ p, (p >>= g).translate h = p.translate h >>= fun a => (g a).translate h
  | ret _ => rfl
  | call o k => by
    have hrest : (fun v => (k v >>= g).translate h) =
        fun v => (k v).translate h >>= fun a => (g a).translate h :=
      funext fun v => translate_bind (k v)
    exact (congrArg (h o >>= ·) hrest).trans (bind_assoc (h o)).symm

theorem eq_ret_of_result? : ∀ {p : Prog I α}, p.result?.isSome = true → ∃ a, p = ret a
  | ret a, _ => ⟨a, rfl⟩

/-! ### How many calls a program makes -/

/-- The program makes at most `n` calls. -/
def Within : ℕ → Prog I α → Prop
  | _, ret _ => True
  | 0, call _ _ => False
  | n + 1, call _ k => ∀ v, (k v).Within n

theorem within_pure {n : ℕ} (a : α) : (pure a : Prog I α).Within n := by cases n <;> trivial

theorem Within.mono {n m : ℕ} (hnm : n ≤ m) : ∀ {p : Prog I α}, p.Within n → p.Within m
  | ret a, _ => within_pure a
  | call o k, h => by
    cases n with
    | zero => exact h.elim
    | succ n =>
      obtain ⟨m, rfl⟩ := Nat.exists_eq_add_of_lt hnm
      exact fun v => (h v).mono (Nat.le_add_right n m)

theorem within_bind {m : ℕ} (hg : ∀ a, (g a).Within m) :
    ∀ {n : ℕ} {p : Prog I α}, p.Within n → (p >>= g).Within (n + m)
  | n, ret a, _ => (hg a).mono (Nat.le_add_left m n)
  | 0, call _ _, h => h.elim
  | n + 1, call o k, h => by
    rw [Nat.succ_add]
    exact fun v => within_bind hg (h v)

variable {p q : Prog I α} {c : Prop}

theorem within_ite {n : ℕ} [Decidable c] (hp : p.Within n) (hq : q.Within n) :
    (if c then p else q).Within n := by
  split_ifs
  · exact hp
  · exact hq

theorem within_translate (hh : ∀ o, (h o).Within 1) :
    ∀ {n : ℕ} {p : Prog I α}, p.Within n → (p.translate h).Within n
  | _, ret a, _ => within_pure a
  | 0, call _ _, hp => hp.elim
  | n + 1, call o k, hp => by
    rw [Nat.add_comm]
    exact within_bind (fun v => within_translate hh (hp v)) (hh o)

/-! ## The calls of a program -/

/-- Every call of the program satisfies `G` and its result satisfies `Q`, as long as the answers
satisfy `A`. -/
def Only (A : (o : I.Op) → I.Val o → Prop) (G : I.Op → Prop) (Q : α → Prop) : Prog I α → Prop
  | ret a => Q a
  | call o k => G o ∧ ∀ v, A o v → (k v).Only A G Q

variable {A : (o : I.Op) → I.Val o → Prop} {G : I.Op → Prop} {Q : α → Prop} {R : β → Prop}

@[simp] theorem only_bind : ∀ {p : Prog I α},
    (p >>= g).Only A G R ↔ p.Only A G fun a => (g a).Only A G R
  | ret _ => .rfl
  | call _ _ => and_congr_right fun _ => forall_congr' fun _ => imp_congr_right fun _ => only_bind

theorem Only.mono {Q' : α → Prop} (hQ : ∀ a, Q a → Q' a) :
    ∀ {p : Prog I α}, p.Only A G Q → p.Only A G Q'
  | ret a, h => hQ a h
  | call _ _, h => ⟨h.1, fun v hv => (h.2 v hv).mono hQ⟩

theorem Only.bind (hp : p.Only A G Q) (hg : ∀ a, Q a → (g a).Only A G R) : (p >>= g).Only A G R :=
  only_bind.2 (hp.mono hg)

theorem only_translate {h : (o : J.Op) → Prog I (J.Val o)} (hh : ∀ o, (h o).Only A G fun _ => True) :
    ∀ p : Prog J α, (p.translate h).Only A G fun _ => True
  | ret _ => trivial
  | call o k => by
    refine (only_bind).2 ((hh o).mono fun v _ => ?_)
    exact only_translate hh (k v)

theorem only_ite [Decidable c] (hp : c → p.Only A G Q) (hq : ¬ c → q.Only A G Q) :
    (if c then p else q).Only A G Q := by
  split_ifs with h
  · exact hp h
  · exact hq h

theorem only_unless [Decidable c] {x : α} (hq : ¬ c → q.Only A G fun _ => True) :
    (if c then pure x else q).Only A G fun _ => True :=
  only_ite (fun _ => trivial) hq

end Prog

/-! ## Machines -/

/-- A call that was made: under which fault, and what it returned. -/
structure Event (I : Interface) (F : Type) where
  op : I.Op
  fault : F
  val : I.Val op

namespace Prog

/-! ### The calls of a program, in view of the earlier ones -/

section Guarded

variable {I : Interface} {F α β : Type} {A : (o : I.Op) → I.Val o → Prop}
  {G : List (Event I F) → I.Op → Prop}

/-- Every call of the program is one that `G` allows after the events there have been, and its result
satisfies `Q` after those, as long as the answers satisfy `A`. -/
def Guarded (A : (o : I.Op) → I.Val o → Prop) (G : List (Event I F) → I.Op → Prop)
    (Q : List (Event I F) → α → Prop) : List (Event I F) → Prog I α → Prop
  | es, ret a => Q es a
  | es, call o k => G es o ∧ ∀ f v, A o v → (k v).Guarded A G Q (es ++ [⟨o, f, v⟩])

variable {Q : List (Event I F) → α → Prop}

variable {R : List (Event I F) → β → Prop} {g : α → Prog I β}

@[simp] theorem guarded_bind :
    ∀ {p : Prog I α} {es : List (Event I F)},
      (p >>= g).Guarded A G R es ↔ p.Guarded A G (fun es a => (g a).Guarded A G R es) es
  | ret _, _ => .rfl
  | call _ _, _ => and_congr_right fun _ => forall_congr' fun _ => forall_congr' fun _ =>
    imp_congr_right fun _ => guarded_bind

theorem Guarded.mono {Q' : List (Event I F) → α → Prop} (hQ : ∀ es a, Q es a → Q' es a) :
    ∀ {p : Prog I α} {es : List (Event I F)}, p.Guarded A G Q es → p.Guarded A G Q' es
  | ret a, es, h => hQ es a h
  | call _ _, _, h => ⟨h.1, fun f v hv => (h.2 f v hv).mono hQ⟩

variable {es : List (Event I F)} {p : Prog I α}

theorem Guarded.bind (hp : p.Guarded A G Q es) (hg : ∀ es a, Q es a → (g a).Guarded A G R es) :
    (p >>= g).Guarded A G R es :=
  guarded_bind.2 (hp.mono hg)

theorem Guarded.weaken {A' : (o : I.Op) → I.Val o → Prop} {G' : List (Event I F) → I.Op → Prop}
    (hA : ∀ o v, A' o v → A o v) (hG : ∀ es o, G es o → G' es o) :
    ∀ {p : Prog I α} {es : List (Event I F)}, p.Guarded A G Q es → p.Guarded A' G' Q es
  | ret _, _, h => h
  | call o _, es, h => ⟨hG es o h.1, fun f v hv => (h.2 f v (hA o v hv)).weaken hA hG⟩

/-- What the calls keep of the events holds at the end. -/
theorem Guarded.keeping {K : List (Event I F) → Prop}
    (hK : ∀ es o f v, K es → G es o → A o v → K (es ++ [⟨o, f, v⟩])) :
    ∀ {p : Prog I α} {es : List (Event I F)}, p.Guarded A G Q es → K es →
      p.Guarded A (fun es o => K es ∧ G es o) (fun es a => K es ∧ Q es a) es
  | ret _, _, h, hes => ⟨hes, h⟩
  | call o _, es, h, hes => ⟨⟨hes, h.1⟩, fun f v hv => (h.2 f v hv).keeping hK (hK es o f v hes h.1 hv)⟩

theorem Only.guarded {N : I.Op → Prop} {Q : α → Prop} :
    ∀ {p : Prog I α} {es : List (Event I F)}, p.Only A N Q → p.Guarded A (fun _ => N) (fun _ => Q) es
  | ret _, _, h => h
  | call _ _, _, h => ⟨h.1, fun _ v hv => (h.2 v hv).guarded⟩

variable {p q : Prog I α}

theorem guarded_ite [Decidable c] (hp : c → p.Guarded A G Q es) (hq : ¬ c → q.Guarded A G Q es) :
    (if c then p else q).Guarded A G Q es := by
  split_ifs with h
  · exact hp h
  · exact hq h

/-- The answers that events have given. -/
def Seen (es : List (Event I F)) (o : I.Op) (v : I.Val o) : Prop :=
  ∃ f, (⟨o, f, v⟩) ∈ es

/-- **From answers to events**: what a program calls in view of the answers, whatever they are, it calls
in view of the events that gave them. -/
theorem guarded_of_only {G : ((o : I.Op) → I.Val o → Prop) → I.Op → Prop}
    {Q : ((o : I.Op) → I.Val o → Prop) → α → Prop} : ∀ {p : Prog I α} {es : List (Event I F)},
      (∀ A, (∀ e ∈ es, A e.op e.val) → p.Only A (G A) (Q A)) →
        p.Guarded (fun _ _ => True) (fun es => G (Seen es)) (fun es => Q (Seen es)) es
  | ret _, es, h => h (Seen es) fun e he => ⟨e.fault, he⟩
  | call o k, es, h => by
    refine ⟨(h (Seen es) fun e he => ⟨e.fault, he⟩).1, fun f v _ => guarded_of_only fun A hA => ?_⟩
    have hv : A o v := hA ⟨o, f, v⟩ (mem_append_right _ (mem_singleton_self _))
    exact (h A fun e he => hA e (mem_append_left _ he)).2 v hv

end Guarded

end Prog

/-- What a machine does with a call: the answer and the next world. -/
structure Machine (I : Interface) (F W : Type) where
  step : W → F → (o : I.Op) → I.Val o × W

/-- A world, and the calls that were made on the way to it. -/
structure Run (I : Interface) (F W : Type) where
  world : W
  events : List (Event I F) := []

namespace Machine

variable {I : Interface} {F W α β : Type} (M : Machine I F W)

def advance (x : Run I F W) (f : F) (o : I.Op) : Run I F W :=
  ⟨(M.step x.world f o).2, x.events ++ [⟨o, f, (M.step x.world f o).1⟩]⟩

def replay (w : W) (es : List (Event I F)) : W :=
  es.foldl (fun w e => (M.step w e.fault e.op).2) w

theorem replay_induct {p : W → Prop} {w : W}
    (h : ∀ e ∈ es, ∀ w, p w → p (M.step w e.fault e.op).2) (hw : p w) : p (M.replay w es) := by
  induction es generalizing w with
  | nil => exact hw
  | cons e es ih => exact ih (fun e' he' => h e' (mem_cons_of_mem e he')) (h e mem_cons_self w hw)

/-! ### Runs with faults -/

section Runs

variable [Inhabited F]

/-- A run to the end; the faults are taken one for each call, and the default one when there are no
more. -/
def exec : Prog I α → List F → Run I F W → α × Run I F W
  | .ret a, _, x => (a, x)
  | .call o k, fs, x =>
    exec (k (M.step x.world (fs.headD default) o).1) fs.tail (M.advance x (fs.headD default) o)

variable {M}

/-- **A run and its events**: what a run adds, and the world it reaches by replaying that. -/
theorem exec_events : ∀ (p : Prog I α) (fs : List F) (x : Run I F W), ∃ es,
    (M.exec p fs x).2 = ⟨M.replay x.world es, x.events ++ es⟩
  | .ret a, fs, x => ⟨[], by rw [append_nil]; rfl⟩
  | .call o k, fs, x => by
    obtain ⟨es, hes⟩ := exec_events (k (M.step x.world (fs.headD default) o).1) fs.tail
      (M.advance x (fs.headD default) o)
    refine ⟨⟨o, fs.headD default, (M.step x.world (fs.headD default) o).1⟩ :: es, ?_⟩
    rw [exec, hes, advance, append_assoc]
    rfl

end Runs

/-! ### Invariants of runs -/

/-- Every event of a run is one that `B` allows in the world it happens in. -/
def Allowed (B : W → Event I F → Prop) : W → List (Event I F) → Prop
  | _, [] => True
  | w, e :: es => B w e ∧ Allowed B (M.step w e.fault e.op).2 es

variable {M} {B : W → Event I F → Prop}

instance Allowed.decidable [∀ w e, Decidable (B w e)] :
    ∀ (w : W) (es : List (Event I F)), Decidable (M.Allowed B w es)
  | _, [] => .isTrue trivial
  | w, e :: es =>
    have := decidable (M.step w e.fault e.op).2 es
    inferInstanceAs (Decidable (B w e ∧ M.Allowed B (M.step w e.fault e.op).2 es))

variable {C : Event I F → Prop}

theorem allowed_of_mem : ∀ {es : List (Event I F)} {w : W},
    (∀ e ∈ es, C e) → M.Allowed (fun _ e => C e) w es
  | [], _, _ => trivial
  | e :: _, _, hC => ⟨hC e mem_cons_self, allowed_of_mem fun e' he' => hC e' (mem_cons_of_mem e he')⟩

theorem Allowed.and : ∀ {es : List (Event I F)} {w : W},
    M.Allowed B w es → (∀ e ∈ es, C e) → M.Allowed (fun w e => B w e ∧ C e) w es
  | [], _, _, _ => trivial
  | e :: _, _, h, hC => ⟨⟨h.1, hC e mem_cons_self⟩,
    and h.2 fun e' he' => hC e' (mem_cons_of_mem e he')⟩

theorem exec_call_events [Inhabited F] (o : I.Op) (k : I.Val o → Prog I α) (fs : List F)
    (x : Run I F W) : ∃ es,
    (M.exec (k (M.step x.world (fs.headD default) o).1) fs.tail
      (M.advance x (fs.headD default) o)).2.events = (M.advance x (fs.headD default) o).events ++ es ∧
    (M.exec (.call o k) fs x).2.events =
      x.events ++ ⟨o, fs.headD default, (M.step x.world (fs.headD default) o).1⟩ :: es := by
  obtain ⟨es, hes⟩ := exec_events (k (M.step x.world (fs.headD default) o).1) fs.tail
    (M.advance x (fs.headD default) o)
  refine ⟨es, by rw [hes], ?_⟩
  rw [exec, hes]
  simp [advance]

variable {A : (o : I.Op) → I.Val o → Prop} {G : I.Op → Prop}

/-- **From calls to runs**: an invariant that the calls of a program preserve, as long as `B` allows
the events, holds at the end. -/
theorem exec_of_only [Inhabited F] {Q : α → Prop} {Inv : Run I F W → Prop}
    (hstep : ∀ x f o, Inv x → G o → B x.world ⟨o, f, (M.step x.world f o).1⟩ →
      A o (M.step x.world f o).1 ∧ Inv (M.advance x f o)) :
    ∀ {p : Prog I α} {fs : List F} {x : Run I F W}, p.Only A G Q → Inv x →
      (∀ es, (M.exec p fs x).2.events = x.events ++ es → M.Allowed B x.world es) →
      Q (M.exec p fs x).1 ∧ Inv (M.exec p fs x).2
  | .ret _, _, _, hp, hx, _ => ⟨hp, hx⟩
  | .call o k, fs, x, hp, hx, hB => by
    obtain ⟨es, hes, hevents⟩ := exec_call_events o k fs x
    obtain ⟨hhead, htail⟩ := hB _ hevents
    obtain ⟨hA, hInv⟩ := hstep x _ o hx hp.1 hhead
    refine exec_of_only hstep (p := k (M.step x.world (fs.headD default) o).1) (hp.2 _ hA) hInv
      fun es' hes' => ?_
    rw [hes] at hes'
    rwa [append_cancel_left hes'] at htail

/-! ### What every run ensures -/

section Ensures

variable (M)

/-- Every run of the program from a world ends with a result and in a world that satisfy `Q`, whatever
faults there are. -/
def Ensures (Q : α → W → Prop) : Prog I α → W → Prop
  | .ret a, w => Q a w
  | .call o k, w => ∀ f, Ensures Q (k (M.step w f o).1) (M.step w f o).2

variable {Q : α → W → Prop} {w : W} {R : β → W → Prop}

@[simp] theorem ensures_bind : ∀ {p : Prog I α} {w : W},
    M.Ensures R (p >>= g) w ↔ M.Ensures (fun a => M.Ensures R (g a)) p w
  | .ret _, _ => .rfl
  | .call _ _, _ => forall_congr' fun _ => ensures_bind

theorem ensures_ite [Decidable c] (hp : c → M.Ensures Q p w)
    (hq : ¬ c → M.Ensures Q q w) : M.Ensures Q (if c then p else q) w := by
  split_ifs with h
  · exact hp h
  · exact hq h

variable {M} {Q' : α → W → Prop}

theorem Ensures.mono (hQ : ∀ a w, Q a w → Q' a w) :
    ∀ {p : Prog I α} {w : W}, M.Ensures Q p w → M.Ensures Q' p w
  | .ret a, w, h => hQ a w h
  | .call _ _, _, h => fun f => (h f).mono hQ

theorem Ensures.bind (hp : M.Ensures Q p w)
    (hg : ∀ a w, Q a w → M.Ensures R (g a) w) : M.Ensures R (p >>= g) w :=
  (ensures_bind M).2 (hp.mono hg)

/-- **What is ensured holds at the end.** -/
theorem exec_of_ensures [Inhabited F] : ∀ {p : Prog I α} {fs : List F} {x : Run I F W},
    M.Ensures Q p x.world → Q (M.exec p fs x).1 (M.exec p fs x).2.world
  | .ret _, _, _, h => h
  | .call o k, fs, x, h =>
    exec_of_ensures (p := k (M.step x.world (fs.headD default) o).1) (h (fs.headD default))

end Ensures

/-! ### What the allowed runs ensure -/

section EnsuresWhen

variable (M)

/-- Every run of the program from a world whose events `B` allows ends with a result and in a world
that satisfy `Q`. -/
def EnsuresWhen (B : W → Event I F → Prop) (Q : α → W → Prop) : Prog I α → W → Prop
  | .ret a, w => Q a w
  | .call o k, w => ∀ f, B w ⟨o, f, (M.step w f o).1⟩ →
      EnsuresWhen B Q (k (M.step w f o).1) (M.step w f o).2

variable {Q : α → W → Prop} {w : W}

@[simp] theorem ensuresWhen_pure (a : α) : M.EnsuresWhen B Q (pure a) w ↔ Q a w := .rfl

@[simp] theorem ensuresWhen_bind :
    ∀ {p : Prog I α} {w : W},
      M.EnsuresWhen B R (p >>= g) w ↔ M.EnsuresWhen B (fun a => M.EnsuresWhen B R (g a)) p w
  | .ret _, _ => .rfl
  | .call _ _, _ => forall_congr' fun _ => imp_congr_right fun _ => ensuresWhen_bind

theorem ensuresWhen_ite [Decidable c]
    (hp : c → M.EnsuresWhen B Q p w) (hq : ¬ c → M.EnsuresWhen B Q q w) :
    M.EnsuresWhen B Q (if c then p else q) w := by
  split_ifs with h
  · exact hp h
  · exact hq h

variable {M}

theorem EnsuresWhen.mono (hQ : ∀ a w, Q a w → Q' a w) :
    ∀ {p : Prog I α} {w : W}, M.EnsuresWhen B Q p w → M.EnsuresWhen B Q' p w
  | .ret a, w, h => hQ a w h
  | .call _ _, _, h => fun f hf => (h f hf).mono hQ

theorem EnsuresWhen.bind (hp : M.EnsuresWhen B Q p w) (hg : ∀ a w, Q a w → M.EnsuresWhen B R (g a) w) :
    M.EnsuresWhen B R (p >>= g) w :=
  (ensuresWhen_bind M).2 (hp.mono hg)

theorem Ensures.when : ∀ {p : Prog I α} {w : W}, M.Ensures Q p w → M.EnsuresWhen B Q p w
  | .ret _, _, h => h
  | .call _ _, _, h => fun f _ => (h f).when

/-- **What the allowed runs ensure holds at the end of one.** -/
theorem exec_of_ensuresWhen [Inhabited F] : ∀ {p : Prog I α} {fs : List F} {x : Run I F W},
    M.EnsuresWhen B Q p x.world →
      (∀ es, (M.exec p fs x).2.events = x.events ++ es → M.Allowed B x.world es) →
      Q (M.exec p fs x).1 (M.exec p fs x).2.world
  | .ret _, _, _, h, _ => h
  | .call o k, fs, x, h, hB => by
    obtain ⟨es, hes, hevents⟩ := exec_call_events o k fs x
    obtain ⟨hhead, htail⟩ := hB _ hevents
    refine exec_of_ensuresWhen (p := k (M.step x.world (fs.headD default) o).1) (h _ hhead) fun es' hes' => ?_
    rw [hes] at hes'
    rwa [append_cancel_left hes'] at htail

variable {K : W → Prop}

/-- The calls of a program, as far as they keep a relation to the first world. -/
theorem ensures_of_only {P : α → Prop}
    (hstep : ∀ w f o, K w → G o → A o (M.step w f o).1 ∧ K (M.step w f o).2) :
    ∀ {p : Prog I α} {w : W}, p.Only A G P → K w → M.Ensures (fun a w' => P a ∧ K w') p w
  | .ret _, _, hp, hw => ⟨hp, hw⟩
  | .call o _, w, hp, hw => fun f =>
    ensures_of_only hstep (hp.2 _ (hstep w f o hw hp.1).1) (hstep w f o hw hp.1).2

/-- What each program that stands for a call keeps, a translated program keeps. -/
theorem ensuresWhen_translate {J : Interface} {h : (o : J.Op) → Prog I (J.Val o)}
    (hh : ∀ o w, K w → M.EnsuresWhen B (fun _ => K) (h o) w) :
    ∀ (p : Prog J α) {w : W}, K w → M.EnsuresWhen B (fun _ => K) (p.translate h) w
  | .ret _, _, hw => hw
  | .call o k, w, hw => by
    refine (ensuresWhen_bind M).2 ((hh o w hw).mono fun v w' hw' => ?_)
    exact ensuresWhen_translate hh (k v) hw'

end EnsuresWhen

/-! ### Runs as worlds -/

/-- The machine whose worlds are runs: a fact about its worlds may speak of the events, too. -/
def recording (M : Machine I F W) : Machine I F (Run I F W) where
  step x f o := ((M.step x.world f o).1, M.advance x f o)

/-- **What is ensured of the run with its events holds at its end**, if `C` allows them all. -/
theorem exec_of_recording [Inhabited F] {Q : α → Run I F W → Prop} :
    ∀ {p : Prog I α} {fs : List F} {x : Run I F W}, M.recording.EnsuresWhen (fun _ e => C e) Q p x →
      (∀ e ∈ (M.exec p fs x).2.events, C e) → Q (M.exec p fs x).1 (M.exec p fs x).2
  | .ret _, _, _, h, _ => h
  | .call o k, fs, x, h, hC => by
    obtain ⟨es, -, hevents⟩ := exec_call_events o k fs x
    have hfirst : C ⟨o, fs.headD default, (M.step x.world (fs.headD default) o).1⟩ := by
      refine hC _ ?_
      rw [hevents]
      exact mem_append_right _ mem_cons_self
    exact exec_of_recording (p := k (M.step x.world (fs.headD default) o).1) (h _ hfirst) hC

/-! ### Runs without faults -/

section Faultless

variable [Inhabited F] (M)

/-- The result and the last world of the run without faults. -/
def eval : Prog I α → W → α × W
  | .ret a, w => (a, w)
  | .call o k, w => eval (k (M.step w default o).1) (M.step w default o).2

/-- The events of the run without faults. -/
def trace : Prog I α → W → List (Event I F)
  | .ret _, _ => []
  | .call o k, w =>
    ⟨o, default, (M.step w default o).1⟩ :: trace (k (M.step w default o).1) (M.step w default o).2

@[simp] theorem eval_pure (a : α) (w : W) : M.eval (pure a) w = (a, w) := rfl

@[simp] theorem eval_op (o : I.Op) (w : W) : M.eval (.op o) w = M.step w default o := rfl

@[simp] theorem eval_bind : ∀ (p : Prog I α) (w : W),
    M.eval (p >>= g) w = M.eval (g (M.eval p w).1) (M.eval p w).2
  | .ret _, _ => rfl
  | .call o k, w => eval_bind (k (M.step w default o).1) (M.step w default o).2

theorem eval_ite [Decidable c] (p q : Prog I α) (w : W) :
    M.eval (if c then p else q) w = if c then M.eval p w else M.eval q w := by
  split_ifs <;> rfl

theorem eval_induct {p : W → Prop} (h : ∀ w o, p w → p (M.step w default o).2) :
    ∀ (q : Prog I α) (w : W), p w → p (M.eval q w).2
  | .ret _, _, hw => hw
  | .call o k, w, hw => eval_induct h (k (M.step w default o).1) _ (h w o hw)

/-- **What is ensured holds at the end** of the run without faults. -/
theorem eval_of_ensures {Q : α → W → Prop} : ∀ {p : Prog I α} {w : W}, M.Ensures Q p w →
    Q (M.eval p w).1 (M.eval p w).2
  | .ret _, _, h => h
  | .call o k, w, h => eval_of_ensures (p := k (M.step w default o).1) (h default)

/-- **Two machines that answer every call alike**, from related worlds to related worlds, run every
program alike. -/
theorem eval_simulates {G V : Type} [Inhabited G] {N : Machine I G V} {R : W → V → Prop}
    (h : ∀ w v o, R w v → (M.step w default o).1 = (N.step v default o).1 ∧
      R (M.step w default o).2 (N.step v default o).2) :
    ∀ (p : Prog I α) (w : W) (v : V), R w v →
      (M.eval p w).1 = (N.eval p v).1 ∧ R (M.eval p w).2 (N.eval p v).2
  | .ret _, _, _, hR => ⟨rfl, hR⟩
  | .call o k, w, v, hR => by
    obtain ⟨hval, hR'⟩ := h w v o hR
    rw [eval, hval]
    exact eval_simulates h (k (N.step v default o).1) _ _ hR'

theorem exec_nil : ∀ (p : Prog I α) (x : Run I F W),
    M.exec p [] x = ((M.eval p x.world).1, ⟨(M.eval p x.world).2, x.events ++ M.trace p x.world⟩)
  | .ret a, x => by simp [exec, eval, trace]
  | .call o k, x => by
    rw [exec, tail_nil, exec_nil]
    simp [advance, eval, trace]

theorem fault_of_mem_trace : ∀ {p : Prog I α} {w : W}, ∀ e ∈ M.trace p w, e.fault = default
  | .call _ _, _, _, .head _ => rfl
  | .call o k, w, e, .tail _ he => fault_of_mem_trace e he

end Faultless

end Machine

/-! ## Programs that take turns -/

/-- Programs, the world they share, and the calls made so far, each with the number of its
program. -/
structure Pool (I : Interface) (F W α : Type) where
  threads : List (Prog I α)
  world : W
  events : List (ℕ × Event I F) := []

namespace Machine

variable {I : Interface} {F W α : Type} (M : Machine I F W)

/-- Thread `i` makes its next call, if it has one. -/
def turn (x : Pool I F W α) (i : ℕ) (f : F) : Pool I F W α :=
  match x.threads[i]? with
  | some (.call o k) =>
    let r := M.step x.world f o
    ⟨x.threads.set i (k r.1), r.2, x.events ++ [(i, ⟨o, f, r.1⟩)]⟩
  | _ => x

/-- The turns of a schedule, one after the other. -/
def runPool (x : Pool I F W α) (schedule : List (ℕ × F)) : Pool I F W α :=
  schedule.foldl (fun x s => M.turn x s.1 s.2) x

/-- `B` allows the call that thread `i` makes next, if it makes one. -/
def MeetsNext (B : Pool I F W α → ℕ → Event I F → Prop) (x : Pool I F W α) (i : ℕ) (f : F) : Prop :=
  match x.threads[i]? with
  | some (.call o _) => B x i ⟨o, f, (M.step x.world f o).1⟩
  | _ => True

/-- Every turn of the schedule is one that `B` allows in the pool it is taken in. -/
def Meets (B : Pool I F W α → ℕ → Event I F → Prop) : Pool I F W α → List (ℕ × F) → Prop
  | _, [] => True
  | x, (i, f) :: schedule => M.MeetsNext B x i f ∧ Meets B (M.turn x i f) schedule

section Decidable

variable {B : Pool I F W α → ℕ → Event I F → Prop} [∀ x i e, Decidable (B x i e)]

instance (x : Pool I F W α) (i : ℕ) (f : F) : Decidable (M.MeetsNext B x i f) := by
  unfold MeetsNext
  split <;> infer_instance

instance decidableMeets : ∀ (x : Pool I F W α) (schedule : List (ℕ × F)), Decidable (M.Meets B x schedule)
  | _, [] => .isTrue trivial
  | x, (i, f) :: schedule =>
    have := decidableMeets (M.turn x i f) schedule
    inferInstanceAs (Decidable (_ ∧ _))

end Decidable

variable {M} {B : Pool I F W α → ℕ → Event I F → Prop}

theorem Meets.mono {B' : Pool I F W α → ℕ → Event I F → Prop} (hB : ∀ x i e, B x i e → B' x i e) :
    ∀ {schedule : List (ℕ × F)} {x : Pool I F W α}, M.Meets B x schedule → M.Meets B' x schedule
  | [], _, _ => trivial
  | (i, f) :: schedule, x, h => by
    refine ⟨?_, h.2.mono hB⟩
    have hnext := h.1
    unfold MeetsNext at hnext ⊢
    split at hnext
    next => exact hB x i _ hnext
    next => trivial

/-- **A rule for pools**: what every allowed turn preserves, holds at the end. -/
theorem runPool_induct {J : Pool I F W α → Prop}
    (hstep : ∀ x i f o (k : I.Val o → Prog I α), J x → x.threads[i]? = some (.call o k) →
      B x i ⟨o, f, (M.step x.world f o).1⟩ →
      J ⟨x.threads.set i (k (M.step x.world f o).1), (M.step x.world f o).2,
        x.events ++ [(i, ⟨o, f, (M.step x.world f o).1⟩)]⟩) :
    ∀ {schedule : List (ℕ × F)} {x : Pool I F W α}, J x → M.Meets B x schedule →
      J (M.runPool x schedule)
  | [], _, hx, _ => hx
  | (i, f) :: schedule, x, hx, hB => by
    suffices h : J (M.turn x i f) from runPool_induct hstep (x := M.turn x i f) h hB.2
    have hnext := hB.1
    unfold MeetsNext at hnext
    unfold turn
    split at hnext
    next o k hk => exact hstep x i f o k hx hk hnext
    next => exact hx

variable {x : Pool I F W α} {schedule schedule' : List (ℕ × F)}

theorem runPool_append :
    M.runPool x (schedule ++ schedule') = M.runPool (M.runPool x schedule) schedule' :=
  foldl_append ..

theorem mem_events_runPool {e : ℕ × Event I F} : ∀ {schedule : List (ℕ × F)} {x : Pool I F W α},
    e ∈ x.events → e ∈ (M.runPool x schedule).events
  | [], _, h => h
  | (i, f) :: schedule, x, h => by
    refine mem_events_runPool (x := M.turn x i f) ?_
    unfold turn
    split
    · exact mem_append_left _ h
    · exact h

theorem length_runPool : ∀ {schedule : List (ℕ × F)} {x : Pool I F W α},
    (M.runPool x schedule).threads.length = x.threads.length
  | [], _ => rfl
  | (i, f) :: schedule, x => by
    refine (length_runPool (x := M.turn x i f)).trans ?_
    unfold turn
    split
    · exact length_set
    · rfl

theorem lt_of_mem_events : ∀ {schedule : List (ℕ × F)} {x : Pool I F W α},
    (∀ t ∈ x.events, t.1 < x.threads.length) →
      ∀ t ∈ (M.runPool x schedule).events, t.1 < (M.runPool x schedule).threads.length
  | [], _, h => h
  | (i, f) :: schedule, x, h => by
    refine lt_of_mem_events (x := M.turn x i f) fun t ht => ?_
    unfold turn at ht ⊢
    split at ht
    next o k hk =>
      rw [length_set]
      rcases mem_append.1 ht with ht | ht
      · exact h t ht
      · rw [mem_singleton.1 ht]
        exact (List.getElem?_eq_some_iff.1 hk).1
    next => exact h t ht

theorem meets_append :
    ∀ {schedule : List (ℕ × F)} {x : Pool I F W α}, M.Meets B x (schedule ++ schedule') ↔
      M.Meets B x schedule ∧ M.Meets B (M.runPool x schedule) schedule'
  | [], _ => (and_iff_right trivial).symm
  | (i, f) :: schedule, x => by
    rw [cons_append, Meets, meets_append, Meets, and_assoc]
    rfl

variable {K : W → List (ℕ × Event I F) → Prop}

/-- The place of an event when one more has happened: it is the new one, or it has one more behind. -/
theorem split_concat {ε : Type} {before since events : List ε} {e e' : ε}
    (h : events ++ [e] = before ++ e' :: since) :
    (since = [] ∧ e' = e) ∨ ∃ since', since = since' ++ [e] ∧ events = before ++ e' :: since' := by
  rcases eq_nil_or_concat since with rfl | ⟨since', e'', rfl⟩
  · exact .inl ⟨rfl, (cons.inj (append_inj_right' h rfl)).1.symm⟩
  rw [concat_eq_append] at h ⊢
  rw [← cons_append, ← append_assoc] at h
  obtain ⟨hevents, he⟩ := append_inj' h rfl
  obtain rfl := (cons.inj he).1
  exact .inr ⟨since', rfl, hevents⟩

def eventsOf (x : Pool I F W α) (i : ℕ) : List (Event I F) :=
  x.events.filterMap fun e => if e.1 = i then some e.2 else none

theorem mem_eventsOf {i : ℕ} {e : Event I F} : e ∈ eventsOf x i ↔ (i, e) ∈ x.events := by
  unfold eventsOf
  rw [mem_filterMap]
  constructor
  · rintro ⟨⟨j, e'⟩, hmem, heq⟩
    split_ifs at heq with hj
    rwa [← hj, ← Option.some.inj heq]
  · exact fun h => ⟨(i, e), h, if_pos rfl⟩

/-- A call of a thread has a place among all calls, with the thread's earlier ones before it. -/
theorem exists_split_of_eventsOf {i : ℕ} {e : Event I F} {before behind : List (Event I F)}
    (h : eventsOf x i = before ++ e :: behind) :
    ∃ before' behind', x.events = before' ++ (i, e) :: behind' ∧ ∀ e' ∈ before, (i, e') ∈ before' := by
  obtain ⟨l₁, l₂, hevents, hl₁, hl₂⟩ := filterMap_eq_append_iff.1 h
  obtain ⟨l₃, ⟨j, e'⟩, l₄, rfl, -, heq, -⟩ := filterMap_eq_cons_iff.1 hl₂
  split_ifs at heq with hj
  cases heq
  obtain rfl := hj
  refine ⟨l₁ ++ l₃, l₄, by rw [hevents, append_assoc], fun e'' he'' => ?_⟩
  rw [← hl₁] at he''
  have hmem : e'' ∈ eventsOf ⟨x.threads, x.world, l₁⟩ j := he''
  exact mem_append_left _ (mem_eventsOf.1 hmem)

/-- **A rule for threads that look back**: what every thread's guard says of its next call, in view of
its earlier ones, holds in every pool that the turns lead to, and so does what its result satisfies. -/
theorem runPool_of_guarded {A : ℕ → (o : I.Op) → I.Val o → Prop}
    {G : ℕ → List (Event I F) → I.Op → Prop} {Q : ℕ → List (Event I F) → α → Prop}
    (hstep : ∀ x i f o, K x.world x.events → G i (eventsOf x i) o →
      B x i ⟨o, f, (M.step x.world f o).1⟩ → A i o (M.step x.world f o).1 ∧
        K (M.step x.world f o).2 (x.events ++ [(i, ⟨o, f, (M.step x.world f o).1⟩)]))
    (hp : ∀ i (p : Prog I α), x.threads[i]? = some p → p.Guarded (A i) (G i) (Q i) (eventsOf x i))
    (hx : K x.world x.events) (hB : M.Meets B x schedule) :
    (∀ i (p : Prog I α), (M.runPool x schedule).threads[i]? = some p →
      p.Guarded (A i) (G i) (Q i) (eventsOf (M.runPool x schedule) i)) ∧
      K (M.runPool x schedule).world (M.runPool x schedule).events := by
  refine runPool_induct (J := fun x : Pool I F W α => (∀ i (p : Prog I α), x.threads[i]? = some p →
    p.Guarded (A i) (G i) (Q i) (eventsOf x i)) ∧ K x.world x.events)
    (fun x i f o k hx hk hB => ?_) ⟨hp, hx⟩ hB
  obtain ⟨hG, hrest⟩ := hx.1 i _ hk
  obtain ⟨hA, hK⟩ := hstep x i f o hx.2 hG hB
  refine ⟨fun j p hj => ?_, hK⟩
  have hevents (j : ℕ) : eventsOf ⟨x.threads.set i (k (M.step x.world f o).1), (M.step x.world f o).2,
      x.events ++ [(i, ⟨o, f, (M.step x.world f o).1⟩)]⟩ j =
        eventsOf x j ++ if i = j then [⟨o, f, (M.step x.world f o).1⟩] else [] := by
    unfold eventsOf
    rw [filterMap_append, filterMap_cons]
    split_ifs <;> rfl
  rw [hevents]
  by_cases hij : i = j
  · subst hij
    rw [if_pos rfl]
    have hlt : i < x.threads.length := (List.getElem?_eq_some_iff.1 hk).1
    rw [getElem?_set_self hlt] at hj
    cases hj
    exact hrest f _ hA
  · rw [if_neg hij, append_nil]
    rw [getElem?_set_ne hij] at hj
    exact hx.1 j p hj

/-- How many of `n` threads have made calls of which `p` holds. -/
def callers (n : ℕ) (p : List (Event I F) → Bool) (events : List (ℕ × Event I F)) : ℕ :=
  (range n).countP fun i => p (events.filterMap fun e => if e.1 = i then some e.2 else none)

/-- A count over `n` threads moves with the one thread that moves. -/
theorem countP_range_move {p q : ℕ → Bool} {i : ℕ} (h : ∀ j, j ≠ i → q j = p j) : ∀ {n : ℕ}, i < n →
    (range n).countP q + (p i).toNat = (range n).countP p + (q i).toNat
  | n + 1, hi => by
    rw [range_succ, countP_append, countP_append]
    by_cases hin : i = n
    · subst hin
      have hrest : (range i).countP q = (range i).countP p :=
        countP_congr fun j hj => by rw [h j (ne_of_lt (mem_range.1 hj))]
      rw [hrest]
      cases hp : p i <;> cases hq : q i <;> simp [hp, hq]
    · have ih := countP_range_move h (n := n) (by omega)
      have hlast : [n].countP q = [n].countP p := by
        rw [countP_singleton, countP_singleton, h n (symm hin)]
      omega

/-- **A count of callers moves with the caller**: one more call of thread `i` changes what the count
takes of thread `i`, and of no other. -/
theorem callers_concat {n : ℕ} {p : List (Event I F) → Bool} (x : Pool I F W α) {i : ℕ}
    (hi : i < n) (e : Event I F) :
    callers n p (x.events ++ [(i, e)]) + (p (eventsOf x i)).toNat =
      callers n p x.events + (p (eventsOf x i ++ [e])).toNat := by
  have hself : (x.events ++ [(i, e)]).filterMap (fun e => if e.1 = i then some e.2 else none) =
      eventsOf x i ++ [e] := by
    simp [eventsOf]
  have hmove := countP_range_move (p := fun j => p (eventsOf x j))
    (q := fun j => p ((x.events ++ [(i, e)]).filterMap fun e => if e.1 = j then some e.2 else none))
    (fun j hj => ?_) hi
  · rwa [hself] at hmove
  · have hne : i ≠ j := symm hj
    simp [eventsOf, hne]

/-- **A thread that makes at most `n` calls** is done after `n` turns of its own. -/
theorem exists_ret_of_within {i : ℕ} : ∀ {schedule : List (ℕ × F)} {x : Pool I F W α} {n : ℕ}
    {p : Prog I α}, x.threads[i]? = some p → p.Within n →
    n ≤ (schedule.filter fun t => t.1 = i).length →
    ∃ a, (M.runPool x schedule).threads[i]? = some (.ret a)
  | [], x, n, p, hp, hn, hle => by
    obtain rfl : n = 0 := Nat.le_zero.1 hle
    cases p with
    | ret a => exact ⟨a, hp⟩
    | call o k => exact hn.elim
  | (j, f) :: schedule, x, n, p, hp, hn, hle => by
    change ∃ a, (M.runPool (M.turn x j f) schedule).threads[i]? = some (.ret a)
    by_cases hij : j = i
    · subst hij
      rw [filter_cons_of_pos (by simp)] at hle
      have hlt : j < x.threads.length := (List.getElem?_eq_some_iff.1 hp).1
      unfold turn
      rw [hp]
      cases p with
      | ret a => exact exists_ret_of_within hp (by trivial) (Nat.zero_le _)
      | call o k =>
        cases n with
        | zero => exact hn.elim
        | succ n =>
          exact exists_ret_of_within (getElem?_set_self hlt) (hn _) (Nat.le_of_succ_le_succ hle)
    · rw [filter_cons_of_neg (by simpa using hij)] at hle
      refine exists_ret_of_within ?_ hn hle
      unfold turn
      split
      · rw [← hp]
        exact getElem?_set_ne hij
      · exact hp

end Machine

end S000
