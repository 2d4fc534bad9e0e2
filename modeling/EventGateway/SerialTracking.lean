import EventGateway.RelyGuarantee

/-!
A transaction whose answers stay the same until it commits acts as if it ran
alone at that moment. `Tracks` says so of the part that has run: started anew on
the rows that are committed later, the whole program would arrive where the
session is now.
-/

namespace RelyGuarantee

open TransactionProgram Interleaving

variable {S : Type} {A : S → Type} {E D W L J R α : Type} {eng : Engine S A E D W L J}

def Agrees (o o' : Outcome E D J R) : Prop := o.result = o'.result ∧ o.db = o'.db

variable (disc : Discipline eng)

def Tracks (whole p : Prog S A E R) (held : L → Prop) (ws : List W) (w : World D J) : Prop :=
  ∀ w', disc.Rely held w w' → Agrees (eng.transaction whole w'.db) (eng.exec w'.db p (eng.view w'.db ws))

variable (eng) in
def Repeats (s : S) (f : A s → Prog S A E R) (ws : List W) (a : A s) (ws' : List W) (w' : World D J) : Prop :=
  ∃ a' ls', eng.eval s (eng.view w'.db ws) (fun _ => false) = .ok a' ws' ls' ∧ f a' = f a

def Stable (s : S) (f : A s → Prog S A E R) (held : L → Prop) (ws : List W) (a : A s) (ws' : List W)
    (w : World D J) : Prop :=
  ∀ w', disc.Rely held w w' → Repeats eng s f ws a ws' w'

variable {disc}

theorem Tracks.start {whole p : Prog S A E R} (h : whole = p) (held : L → Prop) (w : World D J) :
    Tracks disc whole p held [] w :=
  fun _ _ => h ▸ ⟨rfl, rfl⟩

theorem Discipline.Rely.of_emitted {held : L → Prop} {w w' : World D J} {js : List J}
    (h : disc.Rely held (w.emit js) w') : disc.Rely held w w' :=
  ⟨h.1, disc.evolves_trans (disc.evolves_emit w js) h.2.1, h.2.2⟩

theorem Discipline.Rely.weaken {held held' : L → Prop} {w w' : World D J} (h : disc.Rely held w w')
    (hh : ∀ l, held' l → held l) : disc.Rely held' w w' :=
  ⟨h.1, h.2.1, fun l hl => h.2.2 l (hh l hl)⟩

theorem Tracks.strengthen {whole p : Prog S A E R} {held held' : L → Prop} {ws : List W} {w : World D J}
    (h : Tracks disc whole p held ws w) (hh : ∀ l, held l → held' l) : Tracks disc whole p held' ws w :=
  fun w' hr => h w' (hr.weaken hh)

theorem Tracks.call {whole : Prog S A E R} {s : S} {f : A s → Prog S A E R} {held held' : L → Prop}
    {ws ws' : List W} {w w' : World D J} {a : A s} {js : List J} (h : Tracks disc whole (Prog.call s >>= f) held ws w)
    (hr : disc.Rely held w w') (hh : ∀ l, held l → held' l) (hs : Stable disc s f held' ws a ws' w') :
    Tracks disc whole (f a) held' (ws ++ ws') (w'.emit js) := by
  intro w'' hr'
  have hr'' : disc.Rely held' w' w'' := hr'.of_emitted
  obtain ⟨hres, hdb⟩ := h w'' (hr.trans (hr''.weaken hh))
  obtain ⟨a', ls', he, hf⟩ := hs w'' hr''
  rw [Engine.exec_call_bind, he] at hres hdb
  simp only [Outcome.emit_result, Outcome.emit_db] at hres hdb
  rw [← hf, Engine.view_append]
  exact ⟨hres, hdb⟩

theorem Tracks.result {whole : Prog S A E R} {held : L → Prop} {ws : List W} {w : World D J} {r : R}
    (h : Tracks disc whole (.ret r) held ws w) {w' : World D J} (hr : disc.Rely held w w') :
    (eng.transaction whole w'.db).result = .ok r ∧ (eng.transaction whole w'.db).db = eng.view w'.db ws :=
  h w' hr

theorem Tracks.error {whole : Prog S A E R} {held : L → Prop} {ws : List W} {w : World D J} {e : E}
    (h : Tracks disc whole (.throw e) held ws w) {w' : World D J} (hr : disc.Rely held w w') :
    (eng.transaction whole w'.db).result = .error e :=
  (h w' hr).1

theorem wp_call {s : S} {f : A s → Prog S A E α} {held : L → Prop} {ws : List W} {w : World D J}
    {Q : α → (L → Prop) → List W → World D J → Prop} {X : E → (L → Prop) → List W → World D J → Prop}
    (hok : ∀ w' others a ws' ls, disc.Rely held w w' → eng.eval s (eng.view w'.db ws) others = .ok a ws' ls →
      wp disc (f a) (fun l => held l ∨ l ∈ ls) (ws ++ ws') (w'.emit (eng.emits s)) Q X)
    (hrefused : ∀ w' others e, disc.Rely held w w' → eng.eval s (eng.view w'.db ws) others = .refused e →
      X e held ws (w'.emit (eng.emits s)))
    (hfault : ∀ d others e, eng.eval s d others = .fault e → disc.Fault e) :
    wp disc (Prog.call s >>= f) held ws w Q X := by
  intro w' hr others _
  cases he : eng.eval s (eng.view w'.db ws) others with
  | ok a ws' ls => exact fun _ => hok w' others a ws' ls hr he
  | refused e => exact hrefused w' others e hr he
  | fault e => exact hfault _ _ _ he

theorem Tracks.wp_call {whole : Prog S A E R} {s : S} {f : A s → Prog S A E R} {held : L → Prop} {ws : List W}
    {w : World D J} {Q : R → (L → Prop) → List W → World D J → Prop} {X : E → (L → Prop) → List W → World D J → Prop}
    (ht : Tracks disc whole (Prog.call s >>= f) held ws w)
    (hok : ∀ w' others a ws' ls, disc.Rely held w w' → eng.eval s (eng.view w'.db ws) others = .ok a ws' ls →
      (Stable disc s f (fun l => held l ∨ l ∈ ls) ws a ws' w' →
        Tracks disc whole (f a) (fun l => held l ∨ l ∈ ls) (ws ++ ws') (w'.emit (eng.emits s))) →
      wp disc (f a) (fun l => held l ∨ l ∈ ls) (ws ++ ws') (w'.emit (eng.emits s)) Q X)
    (hrefused : ∀ d others e, eng.eval s d others ≠ .refused e)
    (hfault : ∀ d others e, eng.eval s d others = .fault e → disc.Fault e) :
    wp disc (Prog.call s >>= f) held ws w Q X := by
  apply RelyGuarantee.wp_call
  · intro w' others a ws' ls hr he
    exact hok w' others a ws' ls hr he (fun hs => ht.call hr (fun _ hl => Or.inl hl) hs)
  · exact fun w' others e _ he => absurd he (hrefused _ _ _)
  · exact hfault

end RelyGuarantee
