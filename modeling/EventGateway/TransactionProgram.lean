import Mathlib.Logic.Function.Basic

/-!
Programs of database statements with exceptions, and what one of them does when
it runs alone in a transaction.
-/

namespace TransactionProgram

variable {S : Type} {A : S → Type} {E D W L J α β : Type}

inductive Prog (S : Type) (A : S → Type) (E α : Type)
  | ret (a : α)
  | throw (e : E)
  | stmt (s : S) (k : Except E (A s) → Prog S A E α)

namespace Prog

def bind : Prog S A E α → (α → Prog S A E β) → Prog S A E β
  | ret a, f => f a
  | throw e, _ => throw e
  | stmt s k, f => stmt s (fun r => (k r).bind f)

instance : Monad (Prog S A E) where
  pure := ret
  bind := bind

def tryCatch : Prog S A E α → (E → Prog S A E α) → Prog S A E α
  | ret a, _ => ret a
  | throw e, h => h e
  | stmt s k, h => stmt s (fun r => (k r).tryCatch h)

instance : MonadExceptOf E (Prog S A E) where
  throw := throw
  tryCatch := tryCatch

def call (s : S) : Prog S A E (A s) :=
  stmt s (fun r => match r with
    | .ok a => ret a
    | .error e => throw e)

@[simp] theorem pure_eq (a : α) : (pure a : Prog S A E α) = ret a := rfl

@[simp] theorem throw_eq (e : E) : (MonadExcept.throw e : Prog S A E α) = throw e := rfl

@[simp] theorem ret_bind (a : α) (f : α → Prog S A E β) : (ret a : Prog S A E α) >>= f = f a := rfl

@[simp] theorem throw_bind (e : E) (f : α → Prog S A E β) : (throw e : Prog S A E α) >>= f = throw e := rfl

@[simp] theorem stmt_bind (s : S) (k : Except E (A s) → Prog S A E α) (f : α → Prog S A E β) :
    stmt s k >>= f = stmt s (fun r => k r >>= f) := rfl

theorem bind_assoc {γ : Type} (p : Prog S A E α) (f : α → Prog S A E β) (g : β → Prog S A E γ) :
    p >>= f >>= g = p >>= fun a => f a >>= g := by
  induction p with
  | ret a => rfl
  | throw e => rfl
  | stmt s k ih => exact congrArg (stmt s) (funext ih)

@[simp] theorem ret_tryCatch (a : α) (h : E → Prog S A E α) : (ret a).tryCatch h = ret a := rfl

@[simp] theorem throw_tryCatch (e : E) (h : E → Prog S A E α) : (throw e : Prog S A E α).tryCatch h = h e := rfl

@[simp] theorem stmt_tryCatch (s : S) (k : Except E (A s) → Prog S A E α) (h : E → Prog S A E α) :
    (stmt s k).tryCatch h = stmt s (fun r => (k r).tryCatch h) := rfl

end Prog

/-- What a statement does: it answers, taking row or key locks and adding writes; it is refused and
leaves the transaction usable; or it faults, and the transaction can only be rolled back. -/
inductive Reply (E W L α : Type)
  | ok (a : α) (writes : List W) (locks : List L)
  | refused (e : E)
  | fault (e : E)

/-- `eval s d held` runs `s` on the rows `d`, where `held` marks the locks of other transactions;
`emits s` is what `s` sends outside the database, which no rollback takes back. -/
structure Engine (S : Type) (A : S → Type) (E D W L J : Type) where
  apply : D → W → D
  eval : (s : S) → D → (L → Bool) → Reply E W L (A s)
  afterFault : (s : S) → Except E (A s)
  emits : S → List J

structure Outcome (E D J α : Type) where
  result : Except E α
  db : D
  emitted : List J

def Outcome.emit (o : Outcome E D J α) (js : List J) : Outcome E D J α :=
  { o with emitted := js ++ o.emitted }

@[simp] theorem Outcome.emit_result (o : Outcome E D J α) (js : List J) : (o.emit js).result = o.result := rfl

@[simp] theorem Outcome.emit_db (o : Outcome E D J α) (js : List J) : (o.emit js).db = o.db := rfl

namespace Engine

variable (eng : Engine S A E D W L J)

def view (d : D) (ws : List W) : D := ws.foldl eng.apply d

@[simp] theorem view_nil (d : D) : eng.view d [] = d := rfl

@[simp] theorem view_append (d : D) (ws ws' : List W) : eng.view d (ws ++ ws') = eng.view (eng.view d ws) ws' :=
  List.foldl_append

def drain (origin : D) : Prog S A E α → Outcome E D J α
  | .ret a => ⟨.ok a, origin, []⟩
  | .throw e => ⟨.error e, origin, []⟩
  | .stmt s k => (drain origin (k (eng.afterFault s))).emit (eng.emits s)

def exec (origin : D) : Prog S A E α → D → Outcome E D J α
  | .ret a, d => ⟨.ok a, d, []⟩
  | .throw e, _ => ⟨.error e, origin, []⟩
  | .stmt s k, d =>
    match eng.eval s d (fun _ => false) with
    | .ok a ws _ => (exec origin (k (.ok a)) (eng.view d ws)).emit (eng.emits s)
    | .refused e => (exec origin (k (.error e)) d).emit (eng.emits s)
    | .fault e => (eng.drain origin (k (.error e))).emit (eng.emits s)

def transaction (p : Prog S A E α) (d : D) : Outcome E D J α := eng.exec d p d

def drainStatements : Prog S A E α → List S
  | .ret _ => []
  | .throw _ => []
  | .stmt s k => s :: drainStatements (k (eng.afterFault s))

def statements : Prog S A E α → D → List S
  | .ret _, _ => []
  | .throw _, _ => []
  | .stmt s k, d =>
    s :: match eng.eval s d (fun _ => false) with
      | .ok a ws _ => statements (k (.ok a)) (eng.view d ws)
      | .refused e => statements (k (.error e)) d
      | .fault e => eng.drainStatements (k (.error e))

variable {eng}

@[simp] theorem exec_ret (origin d : D) (a : α) :
    eng.exec origin (.ret a : Prog S A E α) d = ⟨.ok a, d, []⟩ := rfl

@[simp] theorem exec_throw (origin d : D) (e : E) :
    eng.exec origin (.throw e : Prog S A E α) d = ⟨.error e, origin, []⟩ := rfl

theorem exec_ok {origin d : D} {s : S} {k : Except E (A s) → Prog S A E α} {a : A s} {ws : List W} {ls : List L}
    (h : eng.eval s d (fun _ => false) = .ok a ws ls) :
    eng.exec origin (.stmt s k) d = (eng.exec origin (k (.ok a)) (eng.view d ws)).emit (eng.emits s) := by
  simp [exec, h]

theorem exec_refused {origin d : D} {s : S} {k : Except E (A s) → Prog S A E α} {e : E}
    (h : eng.eval s d (fun _ => false) = .refused e) :
    eng.exec origin (.stmt s k) d = (eng.exec origin (k (.error e)) d).emit (eng.emits s) := by
  simp [exec, h]

theorem exec_fault {origin d : D} {s : S} {k : Except E (A s) → Prog S A E α} {e : E}
    (h : eng.eval s d (fun _ => false) = .fault e) :
    eng.exec origin (.stmt s k) d = (eng.drain origin (k (.error e))).emit (eng.emits s) := by
  simp [exec, h]

theorem exec_call_bind (origin d : D) (s : S) (f : A s → Prog S A E α) :
    eng.exec origin (Prog.call s >>= f) d =
      match eng.eval s d (fun _ => false) with
      | .ok a ws _ => (eng.exec origin (f a) (eng.view d ws)).emit (eng.emits s)
      | .refused e => ⟨.error e, origin, eng.emits s⟩
      | .fault e => ⟨.error e, origin, eng.emits s⟩ := by
  change eng.exec origin (.stmt s (fun r => (match r with
    | .ok a => .ret a
    | .error e => .throw e : Prog S A E (A s)) >>= f)) d = _
  rw [exec]
  cases eng.eval s d (fun _ => false) with
  | ok a ws ls => rfl
  | refused e => simp [Outcome.emit]
  | fault e => simp [Outcome.emit, drain]

theorem exec_tryCatch_call_bind (origin d : D) (s : S) (g : A s → Prog S A E α) (h : E → Prog S A E α)
    (f : α → Prog S A E β) :
    eng.exec origin ((Prog.call s >>= g).tryCatch h >>= f) d =
      match eng.eval s d (fun _ => false) with
      | .ok a ws _ => (eng.exec origin ((g a).tryCatch h >>= f) (eng.view d ws)).emit (eng.emits s)
      | .refused e => (eng.exec origin (h e >>= f) d).emit (eng.emits s)
      | .fault e => (eng.drain origin (h e >>= f)).emit (eng.emits s) := by
  change eng.exec origin (.stmt s (fun r => ((match r with
    | .ok a => .ret a
    | .error e => .throw e : Prog S A E (A s)) >>= g).tryCatch h >>= f)) d = _
  rw [exec]
  cases eng.eval s d (fun _ => false) with
  | ok a ws ls => rfl
  | refused e => rfl
  | fault e => rfl

theorem statements_tryCatch_call_bind (d : D) (s : S) (g : A s → Prog S A E α) (h : E → Prog S A E α)
    (f : α → Prog S A E β) :
    eng.statements ((Prog.call s >>= g).tryCatch h >>= f) d =
      s :: match eng.eval s d (fun _ => false) with
        | .ok a ws _ => eng.statements ((g a).tryCatch h >>= f) (eng.view d ws)
        | .refused e => eng.statements (h e >>= f) d
        | .fault e => eng.drainStatements (h e >>= f) := by
  change eng.statements (.stmt s (fun r => ((match r with
    | .ok a => .ret a
    | .error e => .throw e : Prog S A E (A s)) >>= g).tryCatch h >>= f)) d = _
  rw [statements]
  cases eng.eval s d (fun _ => false) with
  | ok a ws ls => rfl
  | refused e => rfl
  | fault e => rfl

theorem exec_bind_ret (origin d : D) (p : Prog S A E α) (g : α → β) :
    eng.exec origin (p >>= fun a => .ret (g a)) d =
      ⟨(eng.exec origin p d).result.map g, (eng.exec origin p d).db, (eng.exec origin p d).emitted⟩ := by
  have hdrain (q : Prog S A E α) : eng.drain origin (q >>= fun a => .ret (g a)) =
      ⟨(eng.drain origin q).result.map g, (eng.drain origin q).db, (eng.drain origin q).emitted⟩ := by
    induction q with
    | ret a => rfl
    | throw e => rfl
    | stmt s k ih =>
      simp only [Prog.stmt_bind, drain]
      rw [ih]
      rfl
  induction p generalizing d with
  | ret a => rfl
  | throw e => rfl
  | stmt s k ih =>
    simp only [Prog.stmt_bind, exec]
    cases eng.eval s d (fun _ => false) with
    | ok a ws ls => simp only [ih]; rfl
    | refused e => simp only [ih]; rfl
    | fault e => simp only [hdrain]; rfl

theorem exec_congr {R : D → D → Prop}
    (heval : ∀ s d d', R d d' → eng.eval s d' (fun _ => false) = eng.eval s d (fun _ => false))
    (happly : ∀ d d' w, R d d' → R (eng.apply d w) (eng.apply d' w)) {origin origin' d d' : D} (ho : R origin origin')
    (hd : R d d') (p : Prog S A E α) :
    (eng.exec origin' p d').result = (eng.exec origin p d).result ∧ R (eng.exec origin p d).db (eng.exec origin' p d').db := by
  have hview (ws : List W) {d d' : D} (h : R d d') : R (eng.view d ws) (eng.view d' ws) := by
    induction ws generalizing d d' with
    | nil => exact h
    | cons w ws ih => exact ih (happly d d' w h)
  have hdrain (q : Prog S A E α) : (eng.drain origin' q).result = (eng.drain origin q).result ∧
      R (eng.drain origin q).db (eng.drain origin' q).db := by
    induction q with
    | ret a => exact ⟨rfl, ho⟩
    | throw e => exact ⟨rfl, ho⟩
    | stmt s k ih => exact ih _
  induction p generalizing d d' with
  | ret a => exact ⟨rfl, hd⟩
  | throw e => exact ⟨rfl, ho⟩
  | stmt s k ih =>
    have hs := heval s d d' hd
    cases he : eng.eval s d (fun _ => false) with
    | ok a ws ls =>
      rw [exec_ok he, exec_ok (hs.trans he)]
      exact ih _ (hview ws hd)
    | refused e =>
      rw [exec_refused he, exec_refused (hs.trans he)]
      exact ih _ hd
    | fault e =>
      rw [exec_fault he, exec_fault (hs.trans he)]
      exact hdrain _

end Engine

end TransactionProgram
