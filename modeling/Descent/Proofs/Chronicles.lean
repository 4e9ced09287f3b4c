import Descent.Proofs.Endings
import Descent.Proofs.Film.Depth
import Descent.Proofs.Film.Erases

/-! # Chronicles of runs

The chronicle of a run is all that can be told from outside: what it ends with, the store that it
leaves, and what happened on the way, one thing after another. Left out is only that a parser has
ended which does nothing itself but run others in turn. A run that does not end has no chronicle.

* **`Parser.isGlue`** — the parsers that do nothing themselves.
* **`Chronicle`** — chronicles, which can be put one after another.
* **`Film.chronicle`** — the chronicle of a computation of which films are made, whatever the depth.
* **`Parser.chronicle`**, **`Action.chronicle`** — the chronicles of parsers and of scripts.
* **`Parser.ends_iff_chronicle`**, **`Parser.ends_congr`** — a parser ends as its chronicle does, so
  parsers with the same chronicles end alike.
* **`Parser.chronicle_into`**, **`Parser.chronicle_map`**, **`Parser.chronicle_seq`** — main
  statements: the chronicle of a parser that is made of others is made of their chronicles. -/

namespace Descent

/-- A parser that does nothing itself but run others in turn, apply functions and give values. -/
def Parser.isGlue : Parser → Bool
  | .ok _ | .map _ _ | .chain _ _ | .seq _ => true
  | _ => false

/-- Whether all that happened is the end of such a parser. -/
def Scene.isGlue (scene : Scene) : Bool :=
  match scene.happening with
  | .ran parser _ _ _ => parser.isGlue
  | _ => false

/-- All other scenes. -/
def Scene.deeds (scenes : List Scene) : List Scene := scenes.filter fun scene => !scene.isGlue

@[simp] theorem Scene.deeds_append (early late : List Scene) :
    deeds (early ++ late) = deeds early ++ deeds late := List.filter_append ..

/-- A computation on a store, with what happens on the way. -/
structure Chronicle (α : Type) where
  /-- What the computation ends with, the store that it leaves, and the scenes up to there, if it
  ends. -/
  on : Store → Option (Except Raised α × Store × List Scene)

namespace Chronicle

variable {α β : Type}

/-- End with a result; nothing happens. -/
def pure (result : α) : Chronicle α := ⟨fun store => some (.ok result, store, [])⟩

/-- One computation, then another that depends on the result. -/
def bind (first : Chronicle α) (next : α → Chronicle β) : Chronicle β :=
  ⟨fun store =>
    match first.on store with
    | none => none
    | some (.error cause, after, scenes) => some (.error cause, after, scenes)
    | some (.ok result, middle, early) =>
        ((next result).on middle).map fun (ended, after, late) => (ended, after, early ++ late)⟩

instance : Monad Chronicle where
  pure := pure
  bind := bind

@[simp] theorem pure_on (result : α) (store : Store) :
    (Pure.pure result : Chronicle α).on store = some (.ok result, store, []) := rfl

theorem bind_on (first : Chronicle α) (next : α → Chronicle β) (store : Store) :
    (first >>= next).on store =
      match first.on store with
      | none => none
      | some (.error cause, after, scenes) => some (.error cause, after, scenes)
      | some (.ok result, middle, early) =>
          ((next result).on middle).map fun (ended, after, late) =>
            (ended, after, early ++ late) := rfl

@[ext] theorem ext {first second : Chronicle α} (h : ∀ store, first.on store = second.on store) :
    first = second := by
  cases first
  cases second
  congr
  funext store
  exact h store

instance : LawfulMonad Chronicle :=
  LawfulMonad.mk' Chronicle
    (fun first => by
      ext1 store
      change (first >>= Pure.pure).on store = first.on store
      rw [bind_on]
      rcases first.on store with _ | ⟨_ | _, _, _⟩
      · rfl
      · rfl
      · simp)
    (fun result next => by
      ext1 store
      rw [bind_on, pure_on]
      simp)
    (fun first second third => by
      ext1 store
      rw [bind_on, bind_on, bind_on]
      rcases first.on store with _ | ⟨_ | result, middle, early⟩
      · rfl
      · rfl
      · simp only
        rw [bind_on]
        rcases (second result).on middle with _ | ⟨_ | _, _, _⟩
        · rfl
        · rfl
        · simp [Function.comp_def, List.append_assoc])

/-- Chronicles that end in the same ways are the same. -/
theorem ext_some {first second : Chronicle α}
    (h : ∀ store ended after scenes, first.on store = some (ended, after, scenes) ↔
      second.on store = some (ended, after, scenes)) : first = second := by
  ext1 store
  apply Option.ext
  rintro ⟨ended, after, scenes⟩
  exact h store ended after scenes

/-- One computation after another ends with the error of the first, or as the second does; what
happens in the second comes after what happens in the first. -/
theorem bind_on_eq_some_iff {first : Chronicle α} {next : α → Chronicle β} {store after : Store}
    {ended : Except Raised β} {scenes : List Scene} :
    (first >>= next).on store = some (ended, after, scenes) ↔
      (∃ cause, first.on store = some (.error cause, after, scenes) ∧ ended = .error cause) ∨
        ∃ result middle early late, first.on store = some (.ok result, middle, early) ∧
          (next result).on middle = some (ended, after, late) ∧ scenes = early ++ late := by
  rw [bind_on]
  rcases first.on store with _ | ⟨cause | result, middle, early⟩
  · simp
  · constructor
    · rintro ⟨⟩
      exact .inl ⟨cause, rfl, rfl⟩
    · rintro (⟨_, ⟨⟩, rfl⟩ | ⟨_, _, _, _, ⟨⟩, _⟩)
      rfl
  · simp only [Option.map_eq_some_iff]
    constructor
    · rintro ⟨⟨ended, after, late⟩, hrest, ⟨⟩⟩
      exact .inr ⟨result, middle, early, late, rfl, hrest, rfl⟩
    · rintro (⟨_, ⟨⟩, _⟩ | ⟨_, _, _, late, ⟨⟩, hrest, rfl⟩)
      exact ⟨_, hrest, rfl⟩

end Chronicle

/-! ## Films one after another -/

namespace Film

variable {α β : Type}

@[ext] theorem ext {first second : Film α} (h : ∀ store, first.on store = second.on store) :
    first = second := by
  cases first
  cases second
  congr
  funext store
  exact h store

/-- Nothing follows an error. -/
theorem raise_bind (cause : Raised) (next : α → Film β) :
    (liftM (Eval.raise cause : Eval α) : Film α) >>= next = liftM (Eval.raise cause : Eval β) := rfl

instance : LawfulMonad Film :=
  LawfulMonad.mk' Film
    (fun first => by
      ext1 store
      change (first >>= Pure.pure).on store = first.on store
      rw [bind_on]
      rcases first.on store with ⟨_ | ⟨_ | _, _⟩, _⟩
      · rfl
      · rfl
      · simp)
    (fun result next => by
      ext1 store
      rw [bind_on, pure_on]
      rfl)
    (fun first second third => by
      ext1 store
      rw [bind_on, bind_on, bind_on]
      rcases first.on store with ⟨_ | ⟨_ | result, middle⟩, early⟩
      · rfl
      · rfl
      · simp only
        rw [bind_on]
        rcases (second result).on middle with ⟨_ | ⟨_ | _, _⟩, _⟩
        · rfl
        · rfl
        · simp [List.append_assoc])

/-- The members of a family of films give more and more answers. -/
def Rising (family : Nat → Film α) : Prop :=
  ∀ ⦃depth deeper⦄, depth ≤ deeper → (family depth).Below (family deeper)

namespace Rising

theorem const (film : Film α) : Rising fun _ => film := fun _ _ _ => .refl _

theorem bind {first : Nat → Film α} {next : Nat → α → Film β} (h : Rising first)
    (hnext : ∀ result, Rising fun depth => next depth result) :
    Rising fun depth => first depth >>= next depth :=
  fun _ _ hle => .bind (h hle) fun result => hnext result hle

theorem succ {family : Nat → Film α} (h : Rising family) :
    Rising fun depth => family (depth + 1) :=
  fun _ _ hle => h (Nat.succ_le_succ hle)

end Rising

theorem rising_run (parser : Parser) (source : Source) (place : Position) :
    Rising fun depth => (upTo depth).run parser source place :=
  fun _ _ hle => (below_upTo hle).run parser source place

theorem rising_step (parser : Parser) (source : Source) (place : Position) :
    Rising fun depth => (upTo depth).step parser source place :=
  fun _ _ hle => (below_upTo hle).step compatible_below parser source place

theorem rising_perform (action : Action α) : Rising fun depth => (upTo depth).perform action :=
  fun _ _ hle => (below_upTo hle).perform compatible_below action

/-! ## From films to chronicles -/

open Classical in
/-- The chronicle of a computation: what the films of a family show once they are deep enough, less
the ends of parsers that do nothing themselves. -/
noncomputable def chronicle (family : Nat → Film α) : Chronicle α :=
  ⟨fun store =>
    if h : ∃ depth, ((family depth).on store).1.isSome then
      ((family h.choose).on store).1.map fun (ended, after) =>
        (ended, after, Scene.deeds ((family h.choose).on store).2)
    else none⟩

variable {family : Nat → Film α} {store after : Store} {ended : Except Raised α}
  {scenes : List Scene}

/-- All answers of a family are in its chronicle. -/
theorem chronicle_on_of_on (h : Rising family) {depth : Nat}
    (hon : (family depth).on store = (some (ended, after), scenes)) :
    (chronicle family).on store = some (ended, after, Scene.deeds scenes) := by
  have hexists : ∃ depth, ((family depth).on store).1.isSome := ⟨depth, by rw [hon]; rfl⟩
  -- the chosen depth may be another one, but both answers are also given at the greater of the two
  obtain ⟨answer, hanswer⟩ := Option.isSome_iff_exists.mp hexists.choose_spec
  have hleft := h (Nat.le_max_left depth hexists.choose) _ _ _ hon
  have hright := h (Nat.le_max_right depth hexists.choose) _ _ _ (Prod.ext hanswer rfl)
  obtain ⟨hended, hscenes⟩ := Prod.mk.inj (hleft.symm.trans hright)
  cases hended
  rw [chronicle]
  simp only
  rw [dif_pos hexists, hanswer, hscenes]
  rfl

/-- A chronicle ends as some film does, and shows what the film shows. -/
theorem chronicle_on_eq_some_iff (h : Rising family) :
    (chronicle family).on store = some (ended, after, scenes) ↔
      ∃ depth shown, (family depth).on store = (some (ended, after), shown) ∧
        scenes = Scene.deeds shown := by
  constructor
  · intro hon
    by_cases hexists : ∃ depth, ((family depth).on store).1.isSome
    · obtain ⟨depth, hsome⟩ := hexists
      obtain ⟨⟨ended', after'⟩, hanswer⟩ := Option.isSome_iff_exists.mp hsome
      have hfilm : (family depth).on store = (some (ended', after'), ((family depth).on store).2) :=
        Prod.ext hanswer rfl
      rw [chronicle_on_of_on h hfilm] at hon
      cases hon
      exact ⟨depth, _, hfilm, rfl⟩
    · rw [chronicle] at hon
      simp only at hon
      rw [dif_neg hexists] at hon
      cases hon
  · rintro ⟨depth, shown, hon, rfl⟩
    exact chronicle_on_of_on h hon

/-- What ends at once has this chronicle. -/
theorem chronicle_pure (result : α) :
    chronicle (fun _ => (Pure.pure result : Film α)) = Pure.pure result := by
  ext1 store
  exact (chronicle_on_eq_some_iff (.const _)).mpr ⟨0, [], rfl, rfl⟩

/-- Films with one level more have the same chronicle. -/
theorem chronicle_succ (h : Rising family) :
    chronicle (fun depth => family (depth + 1)) = chronicle family := by
  refine Chronicle.ext_some fun store ended after scenes => ?_
  rw [chronicle_on_eq_some_iff h.succ, chronicle_on_eq_some_iff h]
  constructor
  · rintro ⟨depth, shown, hon, rfl⟩
    exact ⟨depth + 1, shown, hon, rfl⟩
  · rintro ⟨depth, shown, hon, rfl⟩
    exact ⟨depth, shown, h (Nat.le_succ depth) _ _ _ hon, rfl⟩

/-- Computations one after another have their chronicles one after another. -/
theorem chronicle_bind {first : Nat → Film α} {next : Nat → α → Film β} (h : Rising first)
    (hnext : ∀ result, Rising fun depth => next depth result) :
    chronicle (fun depth => first depth >>= next depth)
      = chronicle first >>= fun result => chronicle fun depth => next depth result := by
  refine Chronicle.ext_some fun store ended after scenes => ?_
  rw [chronicle_on_eq_some_iff (h.bind hnext), Chronicle.bind_on_eq_some_iff]
  constructor
  · rintro ⟨depth, shown, hon, rfl⟩
    rcases bind_eq_some hon with
      ⟨cause, hfirst, rfl⟩ | ⟨result, middle, early, late, hfirst, hrest, rfl⟩
    · exact .inl ⟨cause, chronicle_on_of_on h hfirst, rfl⟩
    · exact .inr ⟨result, middle, _, _, chronicle_on_of_on h hfirst,
        chronicle_on_of_on (hnext result) hrest, Scene.deeds_append early late⟩
  · rintro (⟨cause, hfirst, rfl⟩ | ⟨result, middle, _, _, hfirst, hrest, rfl⟩)
    · obtain ⟨depth, shown, hon, rfl⟩ := (chronicle_on_eq_some_iff h).mp hfirst
      exact ⟨depth, shown, bind_error hon, rfl⟩
    · obtain ⟨depth, early, hon, rfl⟩ := (chronicle_on_eq_some_iff h).mp hfirst
      obtain ⟨depth', late, hon', rfl⟩ := (chronicle_on_eq_some_iff (hnext result)).mp hrest
      -- both parts show at the greater of the two depths
      have hleft := h (Nat.le_max_left depth depth') _ _ _ hon
      have hright := hnext result (Nat.le_max_right depth depth') _ _ _ hon'
      exact ⟨max depth depth', early ++ late, by rw [bind_ok hleft, hright],
        (Scene.deeds_append early late).symm⟩

/-- The end of a parser that does nothing itself is not in the chronicle. -/
theorem chronicle_asRun {family : Nat → Film Result} {parser : Parser}
    (hglue : parser.isGlue = true) (h : Rising family) (source : Source) (place : Position) :
    chronicle (fun depth => asRun parser source place (family depth)) = chronicle family := by
  have hrising : Rising fun depth => asRun parser source place (family depth) :=
    fun _ _ hle => .asRun (h hle) _ _ _
  refine Chronicle.ext_some fun store ended after scenes => ?_
  rw [chronicle_on_eq_some_iff hrising, chronicle_on_eq_some_iff h]
  have harrival : ∀ answer, Scene.deeds (arrival parser source place answer) = [] := by
    intro answer
    rcases answer with _ | ⟨_ | _, _⟩
    · rfl
    · rfl
    · simp [arrival, Scene.deeds, Scene.isGlue, hglue]
  constructor
  · rintro ⟨depth, shown, hon, rfl⟩
    rw [asRun_on] at hon
    obtain ⟨hended, rfl⟩ := Prod.mk.inj hon
    refine ⟨depth, _, Prod.ext hended rfl, ?_⟩
    rw [Scene.deeds_append, harrival, List.append_nil]
  · rintro ⟨depth, shown, hon, rfl⟩
    refine ⟨depth, _, by rw [asRun_on, hon], ?_⟩
    rw [Scene.deeds_append, harrival, List.append_nil]

end Film

/-! ## Parsers and scripts -/

/-- The chronicle of a parser's run on a source from a place. -/
noncomputable def Parser.chronicle (parser : Parser) (source : Source) (place : Position) :
    Chronicle Result :=
  Film.chronicle fun depth => (Film.upTo depth).run parser source place

/-- The chronicle of a script. -/
noncomputable def Action.chronicle {α : Type} (action : Action α) : Chronicle α :=
  Film.chronicle fun depth => (Film.upTo depth).perform action

namespace Action

variable {α β : Type}

/-- A script that is done has its result. -/
theorem chronicle_done (result : α) : Action.chronicle (.done result) = pure result :=
  Film.chronicle_pure result

/-- Of two scripts one after another, the second one is performed on what the first has left. -/
theorem chronicle_bind (action : Action α) (next : α → Action β) :
    Action.chronicle (action.bind next)
      = action.chronicle >>= fun result => (next result).chronicle := by
  have hperform : (fun depth => (Film.upTo depth).perform (action.bind next))
      = fun depth => (Film.upTo depth).perform action >>= fun result =>
          (Film.upTo depth).perform (next result) :=
    funext fun depth => (Film.upTo depth).perform_bind_of Film.raise_bind action next
  rw [chronicle, hperform]
  exact Film.chronicle_bind (Film.rising_perform action) fun result =>
    Film.rising_perform (next result)

end Action

namespace Parser

open Engine

variable {source : Source} {place : Position} {store after : Store} {ended : Except Raised Result}
  {p : Parser}

/-- A parser ends so if its chronicle does. -/
theorem ends_iff_chronicle : p.Ends source place store ended after ↔
    ∃ scenes, (p.chronicle source place).on store = some (ended, after, scenes) := by
  rw [ends_iff_exists]
  constructor
  · rintro ⟨depth, hon⟩
    rw [← Film.fst_run_on] at hon
    exact ⟨_, Film.chronicle_on_of_on (Film.rising_run p source place) (Prod.ext hon rfl)⟩
  · rintro ⟨scenes, hon⟩
    obtain ⟨depth, shown, hfilm, -⟩ :=
      (Film.chronicle_on_eq_some_iff (Film.rising_run p source place)).mp hon
    exact ⟨depth, by rw [← Film.fst_run_on, hfilm]⟩

/-- Parsers with the same chronicles end alike. -/
theorem ends_congr {q : Parser} (h : p.chronicle = q.chronicle) :
    p.Ends source place store ended after ↔ q.Ends source place store ended after := by
  rw [ends_iff_chronicle, ends_iff_chronicle, h]

/-- The chronicle of a parser that does nothing itself is that of its step. -/
theorem chronicle_of_glue (hglue : p.isGlue = true) (source : Source) (place : Position) :
    p.chronicle source place
      = Film.chronicle fun depth => (Film.upTo depth).step p source place := by
  rw [chronicle, ← Film.chronicle_succ (Film.rising_run p source place)]
  exact Film.chronicle_asRun hglue (Film.rising_step p source place) source place

theorem chronicle_ok (value : Value) (source : Source) (place : Position) :
    (Parser.ok value).chronicle source place = pure (.matched place value) := by
  rw [chronicle_of_glue rfl]
  exact Film.chronicle_pure _

section GoOn

variable {films : Nat → Position → Value → Film Result}

theorem rising_goOn (h : ∀ stop value, Film.Rising fun depth => films depth stop value)
    (result : Result) : Film.Rising fun depth => goOn (films depth) result := by
  cases result with
  | matched stop value => exact h stop value
  | failed failure => exact .const _

/-- After the chronicle of a parser comes that of what goes on from a match. -/
theorem chronicle_goOn (p : Parser) (source : Source) (place : Position)
    (h : ∀ stop value, Film.Rising fun depth => films depth stop value) :
    Film.chronicle (fun depth => (Film.upTo depth).run p source place >>= goOn (films depth))
      = p.chronicle source place >>= goOn fun stop value => Film.chronicle fun depth =>
          films depth stop value := by
  rw [Film.chronicle_bind (Film.rising_run p source place) (rising_goOn h)]
  refine bind_congr fun result => ?_
  cases result with
  | matched stop value => rfl
  | failed failure => exact Film.chronicle_pure _

end GoOn

/-- A function is applied to the value of a match. -/
theorem chronicle_map (p : Parser) (fn : Value → Action Value) (source : Source)
    (place : Position) :
    (Parser.map p fn).chronicle source place = p.chronicle source place >>=
      goOn fun stop value => (fn value).chronicle >>= fun made => pure (.matched stop made) := by
  have hstep : ∀ depth, (Film.upTo depth).step (.map p fn) source place
      = (Film.upTo depth).run p source place >>= goOn fun stop value =>
          (Film.upTo depth).perform (fn value) >>= fun made => pure (.matched stop made) :=
    fun depth => bind_congr fun result => by cases result <;> rfl
  have hmade : ∀ (stop : Position) (made : Value),
      Film.Rising fun _ => (pure (.matched stop made) : Film Result) := fun _ _ => .const _
  rw [chronicle_of_glue rfl, funext hstep, chronicle_goOn p source place fun stop value =>
    (Film.rising_perform (fn value)).bind (hmade stop)]
  refine goOn_congr _ fun stop value => ?_
  rw [Film.chronicle_bind (Film.rising_perform (fn value)) (hmade stop)]
  exact bind_congr fun made => Film.chronicle_pure _

/-- Where a match has stopped, the parser is run that a function gives for its value. -/
theorem chronicle_into (p : Parser) (make : Value → Action Parser) (source : Source)
    (place : Position) :
    (p.into make).chronicle source place = p.chronicle source place >>= goOn fun stop value =>
      (make value).chronicle >>= fun q => q.chronicle source stop := by
  have hstep : ∀ depth, (Film.upTo depth).step (p.into make) source place
      = (Film.upTo depth).run p source place >>= goOn fun stop value =>
          (Film.upTo depth).perform (make value) >>= fun q =>
            (Film.upTo depth).run q source stop := by
    refine fun depth => bind_congr fun result => ?_
    cases result with
    | failed failure => rfl
    | matched stop value =>
      simp only [goOn, Action.object, perform_bind_of _ Film.raise_bind, bind_assoc]
      exact bind_congr fun q => pure_bind _ _
  rw [chronicle_of_glue rfl, funext hstep, chronicle_goOn p source place fun stop value =>
    (Film.rising_perform (make value)).bind fun q => Film.rising_run q source stop]
  exact goOn_congr _ fun stop value =>
    Film.chronicle_bind (Film.rising_perform (make value)) fun q => Film.rising_run q source stop

/-- Run each of some parsers where the one before has stopped, and go on with their values. -/
noncomputable def inTurn (source : Source) :
    List Parser → Position → (Position → List Value → Chronicle Result) → Chronicle Result
  | [], place, next => next place []
  | p :: ps, place, next =>
      p.chronicle source place >>= goOn fun stop value =>
        inTurn source ps stop fun last values => next last (value :: values)

/-- Parsers in sequence are run in turn, and their values are a tuple. -/
theorem chronicle_seq (ps : List Parser) (source : Source) (place : Position) :
    (Parser.seq ps).chronicle source place
      = inTurn source ps place fun stop values => pure (.matched stop (.tuple values)) := by
  -- the values so far are kept in the order opposite to that of the tuple
  have hsequence : ∀ (ps : List Parser) (sofar : List Value) (place : Position),
      (Film.Rising fun depth => (Film.upTo depth).sequence source ps sofar place) ∧
      Film.chronicle (fun depth => (Film.upTo depth).sequence source ps sofar place)
        = inTurn source ps place fun stop values =>
            pure (.matched stop (.tuple (sofar.reverse ++ values))) := by
    intro ps
    induction ps with
    | nil =>
      intro sofar place
      refine ⟨.const _, ?_⟩
      rw [inTurn, List.append_nil]
      exact Film.chronicle_pure _
    | cons p ps ih =>
      intro sofar place
      have hstep : (fun depth => (Film.upTo depth).sequence source (p :: ps) sofar place)
          = fun depth => (Film.upTo depth).run p source place >>= goOn fun stop value =>
              (Film.upTo depth).sequence source ps (value :: sofar) stop :=
        funext fun depth => bind_congr fun result => by cases result <;> rfl
      have hrest : ∀ stop value, Film.Rising fun depth =>
          (Film.upTo depth).sequence source ps (value :: sofar) stop :=
        fun stop value => (ih (value :: sofar) stop).1
      rw [hstep]
      refine ⟨(Film.rising_run p source place).bind (rising_goOn hrest), ?_⟩
      rw [chronicle_goOn p source place hrest, inTurn]
      refine goOn_congr _ fun stop value => ?_
      rw [(ih (value :: sofar) stop).2]
      simp only [List.reverse_cons, List.append_assoc, List.singleton_append]
  rw [chronicle_of_glue rfl]
  exact (hsequence ps [] place).2

end Parser

end Descent
