import Descent.Proofs.Composed.Obeys
import Descent.Proofs.Film.Erases

/-! # Films of computations that keep what is known

* **`Film.Keeps`** — a film of a computation that keeps what is known. Of its result something is
  said in terms of what is known then and of the scenes up to there.
* **`Film.Keeps.of_erases`** — of a film in itself nothing has to be shown but what it shows.
* **`Film.Keeps.bind`** — one computation after another.
* **`Film.keeps_build`**, **`Film.keeps_perform`**, **`Film.keeps_perform_composed`** — what lazy
  parsers and scripts come to in the films of engines. -/

namespace Descent

/-- The film of a computation that keeps what is known; `post` holds of its result, of what is known
then and of the scenes. -/
def Film.Keeps {α : Type} (known : Known) (post : Known → List Scene → α → Prop) (film : Film α) :
    Prop :=
  ∀ store, store.Honours known → ∀ outcome after,
    (film.on store).1 = some (outcome, after) →
      ∃ larger, store.Leads known after larger ∧
        ∀ result, outcome = .ok result → post larger (film.on store).2 result

namespace Film

namespace Keeps

variable {α β : Type} {known : Known} {post : Known → List Scene → α → Prop}
  {post' : Known → List Scene → β → Prop}

/-- A film of what keeps what is known does so. -/
theorem of_erases {film : Film α} {plain : Eval α} {post : Known → α → Prop}
    (h : film.Erases plain) (hplain : plain.Keeps known post) :
    film.Keeps known fun larger _ result => post larger result := by
  intro store hstore outcome after hon
  rw [h store] at hon
  exact hplain store hstore outcome after hon

/-- Less may be said of the result. -/
theorem imp {film : Film α} {weaker : Known → List Scene → α → Prop} (h : film.Keeps known post)
    (hpost : ∀ larger scenes result, post larger scenes result → weaker larger scenes result) :
    film.Keeps known weaker := by
  intro store hstore outcome after hon
  obtain ⟨larger, hleads, hresult⟩ := h store hstore outcome after hon
  exact ⟨larger, hleads, fun result hr => hpost larger _ result (hresult result hr)⟩

theorem pure {result : α} (h : post known [] result) :
    (Pure.pure result : Film α).Keeps known post := by
  intro store hstore outcome after hon
  rw [pure_on, Option.some.injEq, Prod.mk.injEq] at hon
  obtain ⟨rfl, rfl⟩ := hon
  refine ⟨known, .refl hstore, fun r hr => ?_⟩
  cases hr
  exact h

/-- What an engine does by itself keeps what is known. -/
theorem basic {computation : Eval α} (h : computation.Basic) :
    (liftM computation : Film α).Keeps known fun _ _ _ => True :=
  of_erases (fun _ => rfl) (.basic h)

/-- An error has no result of which anything could be said. -/
theorem raise (cause : Raised) :
    (liftM (Eval.raise cause : Eval α) : Film α).Keeps known post := by
  have hplain : (Eval.raise cause : Eval α).Keeps known fun _ _ => False := .raise cause
  exact (of_erases (fun _ => rfl) hplain).imp fun _ _ _ => False.elim

/-- One computation after another: the second starts with all that is known by then, and its scenes
follow those of the first. -/
theorem bind {first : Film α} {next : α → Film β} (h : first.Keeps known post)
    (hnext : ∀ larger scenes result, known ⊆ larger → post larger scenes result →
      (next result).Keeps larger fun larger' rest result' =>
        post' larger' (scenes ++ rest) result') : (first >>= next).Keeps known post' := by
  intro store hstore outcome after hon
  have hfirst := h store hstore
  rw [bind_on] at hon ⊢
  generalize first.on store = done at hfirst hon ⊢
  rcases done with ⟨_ | ⟨cause | result, middle⟩, scenes⟩
  · cases hon
  · -- the first one ended with an error, and so does the whole
    cases hon
    obtain ⟨larger, hleads, -⟩ := hfirst _ _ rfl
    refine ⟨larger, hleads, ?_⟩
    rintro result ⟨⟩
  · -- the second one starts with what the first one got known
    obtain ⟨large, hleads, hpost⟩ := hfirst _ _ rfl
    obtain ⟨larger, hleads', hresult⟩ := hnext large scenes result hleads.subset
      (hpost result rfl) middle hleads.honours outcome after hon
    exact ⟨larger, hleads.trans hleads', hresult⟩

end Keeps

/-! ## Engines -/

/-- Nothing at all may be said of the results of parsers. -/
theorem law_trivial : Law fun _ _ _ => True := by
  constructor <;> intros <;> trivial

variable {known : Known} (depth : Nat)

/-- A known lazy parser makes a composed parser. -/
theorem keeps_build {cell : CellId} (hcell : Reference.cell cell ∈ known) :
    ((upTo depth).build cell).Keeps known fun larger _ parser => parser.Composed larger := by
  have hbuild := (law_trivial.keeps_upTo depth).build known cell
  exact .of_erases ((related_upTo depth).build cell) (hbuild.imp fun _ _ h => h hcell)

/-- Any script keeps what is known. -/
theorem keeps_perform {α : Type} (action : Action α) :
    ((upTo depth).perform action).Keeps known fun _ _ _ => True :=
  .of_erases ((related_upTo depth).perform compatible_erases action)
    ((law_trivial.keeps_upTo depth).perform_any action known)

/-- A script that makes composed parsers only makes a composed parser, if any. -/
theorem keeps_perform_composed {action : Action (Object Parser)}
    (h : Action.Composed known action) :
    ((upTo depth).perform action).Keeps known fun larger _ object => object.Composed larger :=
  .of_erases ((related_upTo depth).perform compatible_erases action)
    ((law_trivial.keeps_upTo depth).perform_composed action known h)

end Film

end Descent
