import Descent.Proofs.Endings.Composed
import Descent.Proofs.Factored.Parallels

/-! # Left factoring

Alternatives that begin with the same parser may be replaced by that parser, followed by a choice
between what comes after it. The parser is then run once and not once for each alternative. What a
run ends with is the same, and so are the labels of a failure and their order: a failure of the
common parser is merged with itself, and its labels are not repeated.

* **`Parser.StartsWith`** — a parser that begins with another one.
* **`Course.Leads`** — from any store, a course comes to run a parser that is like another one.
* **`Parser.agree_of_startsWith`** — a choice between parsers that all begin with the same one.
* **`Parser.Composed.left_factor`** — main statement: common parsers may be factored out of choices
  between sequences, and of choices between parsers that are chosen by a value. -/

namespace Descent

variable {base late store store' after middle : Store} {known : Known} {pairs : Pairing}
  {p q first right : Parser} {others : List Parser} {source : Source} {place stop : Position}
  {value : Value} {ended : Except Raised Result}

/-! ## Parsers that begin in the same way -/

/-- What is related to an end that is no match is no match. -/
theorem Unmatched.of_outcomes {ended' : Except Raised Result} (h : Unmatched ended)
    (hsame : Outcomes .caching Eq ended' ended) : Unmatched ended' := by
  rintro stop value rfl
  cases hsame with
  | ok heq => exact h stop value (congrArg Except.ok heq.symm)

namespace Parser

/-- Whatever has been done with pure parsers before, a pure parser ends in the same way. -/
theorem Ends.elsewhere (h : p.Ends source place store ended after) (hpure : base.Pure pairs)
    (hp : Parser.Alike .caching pairs p p) (hstore : Relation.ReflTransGen Store.Uses base store)
    (hstore' : Relation.ReflTransGen Store.Uses base store') :
    ∃ ended' after', p.Ends source place store' ended' after' ∧
      Relation.ReflTransGen Store.Uses base after' ∧ Outcomes .caching Eq ended' ended := by
  obtain ⟨ended', after', hends', hsame⟩ := (hpure.beside.uses hstore hstore').exists_ends hp h
  exact ⟨ended', after', hends', hstore'.tail (hends'.uses ⟨pairs, hpure.uses hstore', hp⟩),
    hsame.flip fun _ _ => Eq.symm⟩

/-- Where a pure parser has matched once, it always matches. -/
theorem Ends.matched_elsewhere (h : p.Ends source place store (.ok (.matched stop value)) after)
    (hpure : base.Pure pairs) (hp : Parser.Alike .caching pairs p p)
    (hstore : Relation.ReflTransGen Store.Uses base store)
    (hstore' : Relation.ReflTransGen Store.Uses base store') :
    ∃ after', p.Ends source place store' (.ok (.matched stop value)) after' ∧
      Relation.ReflTransGen Store.Uses base after' := by
  obtain ⟨ended', after', hends', hafter', hsame⟩ := h.elsewhere hpure hp hstore hstore'
  cases hsame with
  | ok heq =>
    subst heq
    exact ⟨after', hends', hafter'⟩

/-- A parser ends as another one does if that does not match, and it goes on from a match of that
in a given way. -/
def GoesOn (first : Parser) (source : Source) (place : Position) (go : Position → Value → Course)
    (whole : Parser) : Prop :=
  ∀ store ended after, whole.Ends source place store ended after ↔
    (first.Ends source place store ended after ∧ Unmatched ended) ∨
      ∃ stop value middle, first.Ends source place store (.ok (.matched stop value)) middle ∧
        go stop value middle ended after

/-- A parser begins with another one. -/
def StartsWith (first : Parser) (source : Source) (place : Position) (whole : Parser) : Prop :=
  ∃ go, first.GoesOn source place go whole

theorem goesOn_and (p q : Parser) (source : Source) (place : Position) :
    p.GoesOn source place (fun stop value middle ended after =>
      ∃ other, q.Ends source stop middle other after ∧
        ended = other.map (·.mapValue fun value' => .tuple [value, value'])) (p.and q) :=
  fun _ _ _ => ends_and_iff

theorem goesOn_into (p : Parser) (make : Value → Action Parser) (source : Source)
    (place : Position) :
    p.GoesOn source place (fun stop value middle ended after =>
      (∃ cause, (make value).Ends middle (.error cause) after ∧ ended = .error cause) ∨
        ∃ q made, (make value).Ends middle (.ok q) made ∧ q.Ends source stop made ended after)
      (p.into make) :=
  fun _ _ _ => ends_into_iff

/-- After a match of the parser it begins with, a parser ends as it goes on. -/
theorem GoesOn.iff_of_matched {go : Position → Value → Course} (h : p.GoesOn source place go q)
    (hmatched : p.Ends source place store (.ok (.matched stop value)) middle) :
    q.Ends source place store ended after ↔ go stop value middle ended after := by
  refine (h store ended after).trans
    ⟨?_, fun hrest => .inr ⟨stop, value, middle, hmatched, hrest⟩⟩
  rintro (⟨hends, hended⟩ | ⟨stop', value', middle', hmatched', hrest⟩)
  · exact absurd (hends.unique hmatched).1 (hended stop value)
  · obtain ⟨heq, rfl⟩ := hmatched.unique hmatched'
    cases heq
    exact hrest

/-- If a parser ends, so does the one that it begins with. -/
theorem StartsWith.ends (h : p.StartsWith source place q)
    (hends : q.Ends source place store ended after) :
    ∃ ended' after', p.Ends source place store ended' after' := by
  obtain ⟨go, hgo⟩ := h
  rcases (hgo store ended after).mp hends with ⟨hfirst, -⟩ | ⟨stop, value, middle, hfirst, -⟩
  · exact ⟨_, _, hfirst⟩
  · exact ⟨_, _, hfirst⟩

/-- Where the parser it begins with does not match, a parser always ends as that does. -/
theorem StartsWith.repeats (h : p.StartsWith source place q) (hpure : base.Pure pairs)
    (hp : Parser.Alike .caching pairs p p) (hstore : Relation.ReflTransGen Store.Uses base store)
    (hends : p.Ends source place store ended after) (hended : Unmatched ended) :
    q.Repeats (Relation.ReflTransGen Store.Uses base) source place ended := by
  obtain ⟨go, hgo⟩ := h
  intro store' hstore'
  obtain ⟨ended', after', hends', hafter', hsame⟩ := hends.elsewhere hpure hp hstore hstore'
  exact ⟨ended', after', (hgo store' ended' after').mpr (.inl ⟨hends', hended.of_outcomes hsame⟩),
    hafter', hsame⟩

/-- What a composed parser ends with is reported for any number of runs of it. -/
theorem Ends.steady (h : p.Ends source place store ended after) (hpure : base.Pure pairs)
    (hp : Parser.Alike .caching pairs p p) (hknown : base.Honours known)
    (hcomposed : p.Composed known) (hstore : Relation.ReflTransGen Store.Uses base store) :
    Steady ended := by
  rintro failure rfl
  -- what is known of its labels is known where the parser is composed
  obtain ⟨_, _, hbase, -, hsame⟩ := h.elsewhere hpure hp hstore .refl
  cases hsame with
  | ok heq =>
    subst heq
    exact Failure.merge_self (hcomposed.expected_pairwise hknown.more hbase)

/-- A choice between parsers that all begin with the same composed parser ends like another parser
that begins with it, if it does so where that parser matches. -/
theorem agree_of_startsWith (hpure : base.Pure pairs) (hp : Parser.Alike .caching pairs p p)
    (hknown : base.Honours known) (hcomposed : p.Composed known)
    (hstore : Relation.ReflTransGen Store.Uses base store)
    (hstore' : Relation.ReflTransGen Store.Uses base store')
    (hfirst : p.StartsWith source place first) (hothers : ∀ q ∈ others, p.StartsWith source place q)
    {go : Position → Value → Course} (hright : p.GoesOn source place go right)
    (hgo : ∀ stop value middle, p.Ends source place store' (.ok (.matched stop value)) middle →
      (∀ ended after, (altOf first others).Ends source place store ended after →
        ∃ ended' after', go stop value middle ended' after' ∧ Outcomes .caching Eq ended ended') ∧
      ∀ ended after, go stop value middle ended after →
        ∃ ended' after', (altOf first others).Ends source place store ended' after') :
    Eval.Agree (fun depth => (Engine.upTo depth).run (altOf first others) source place) store
      (fun depth => (Engine.upTo depth).run right source place) store' := by
  have hrepeats : ∀ {ended after}, p.Ends source place store' ended after → Unmatched ended →
      (altOf first others).Repeats (Relation.ReflTransGen Store.Uses base) source place ended :=
    fun hends hended => .altOf (hends.steady hpure hp hknown hcomposed hstore')
      (hfirst.repeats hpure hp hstore' hends hended)
      fun q hq => (hothers q hq).repeats hpure hp hstore' hends hended
  refine Eval.agree_of_ends ?_ ?_
  · rintro ⟨ended, after, hends⟩
    obtain ⟨_, _, halternative⟩ := hends.first_of_altOf
    obtain ⟨_, _, hstart⟩ := hfirst.ends halternative
    obtain ⟨ended', after', hstart', -, -⟩ := hstart.elsewhere hpure hp hstore hstore'
    -- whether the common parser matches is the same on both sides
    rcases matched_or_unmatched ended' with ⟨stop, value, rfl⟩ | hended'
    · obtain ⟨ended', after', hrest, hsame⟩ := (hgo _ _ _ hstart').1 ended after hends
      exact ⟨ended, after, ended', after', hends, (hright.iff_of_matched hstart').mpr hrest, hsame⟩
    · obtain ⟨_, _, hends, -, hsame⟩ := hrepeats hstart' hended' store hstore
      exact ⟨_, _, ended', after', hends, (hright _ _ _).mpr (.inl ⟨hstart', hended'⟩), hsame⟩
  · rintro ⟨ended, after, hends⟩
    rcases (hright _ _ _).mp hends with ⟨hstart, hended⟩ | ⟨stop, value, middle, hstart, hrest⟩
    · obtain ⟨_, _, hends, -, -⟩ := hrepeats hstart hended store hstore
      exact ⟨_, _, hends⟩
    · exact (hgo _ _ _ hstart).2 _ _ hrest

end Parser

/-! ## What comes after the common parser -/

/-- From whatever store it starts, a course comes to run a parser that is like a given one, which
stands in a store beside it, and a function is applied to the value. -/
def Course.Leads (base late : Store) (fn : Value → Value) (source : Source) (stop : Position)
    (q : Parser) (course : Course) : Prop :=
  ∀ store, Relation.ReflTransGen Store.Uses base store → ∃ larger a middle,
    Relation.ReflTransGen Store.Uses base middle ∧ Parser.Pure middle a ∧
      Parser.Alike .caching larger a q ∧ Store.Beside larger middle late ∧
      ∀ ended after, course store ended after ↔
        ∃ other, a.Ends source stop middle other after ∧ ended = other.map (·.mapValue fn)

namespace Course.Leads

variable {fn : Value → Value} {course : Course}

/-- Such a course runs in parallel to that parser. -/
theorem parallels (h : Leads base late fn source stop q course) (hq : q.Pure late) :
    Parallels (Relation.ReflTransGen Store.Uses base) (Relation.ReflTransGen Store.Uses late)
      (Revalued fn) course (q.Ends source stop) := by
  intro store store' ended after hstore hstore' hends
  obtain ⟨larger, a, middle, hmiddle, ha, halike, hbeside, hcourse⟩ := h store hstore
  obtain ⟨other, hother, rfl⟩ := (hcourse ended after).mp hends
  obtain ⟨ended', after', hends', hsame⟩ := (hbeside.uses .refl hstore').exists_ends halike hother
  exact ⟨hmiddle.tail (hother.uses ha), ended', after', hends',
    hstore'.tail (hends'.uses (hq.uses hstore')), hsame.map _⟩

/-- That parser runs in parallel to it. -/
theorem parallels_flip (h : Leads base late fn source stop q course) (hq : q.Pure late) :
    Parallels (Relation.ReflTransGen Store.Uses late) (Relation.ReflTransGen Store.Uses base)
      (fun ended' ended => Revalued fn ended ended') (q.Ends source stop) course := by
  intro store' store ended' after' hstore' hstore hends'
  obtain ⟨larger, a, middle, hmiddle, ha, halike, hbeside, hcourse⟩ := h store hstore
  obtain ⟨other, after, hother, hsame⟩ :=
    (hbeside.uses .refl hstore').flip.exists_ends halike.flip hends'
  exact ⟨hstore'.tail (hends'.uses (hq.uses hstore')), _, after,
    (hcourse _ after).mpr ⟨other, hother, rfl⟩, hmiddle.tail (hother.uses ha),
    (hsame.flip fun _ _ => Eq.symm).map _⟩

end Course.Leads

/-- A script makes a parser for each value, does the same each time, and ends whatever has been done
before. -/
structure Store.Makes (base : Store) (pairs : Pairing) (make : Value → Action Parser) : Prop where
  /-- It does the same each time. -/
  alike : ∀ value, Action.Alike .caching pairs (make value).object.objects
    (make value).object.objects
  /-- It makes a parser, whatever has been done before. -/
  returns : ∀ value store, Relation.ReflTransGen Store.Uses base store →
    ∃ q after, (make value).Ends store (.ok q) after

/-- Make two parsers, one after the other, and choose between them. -/
def Action.either (first second : Action Parser) : Action Parser :=
  first.bind fun p => second.bind fun q => .done (.or p q)

theorem Action.Ends.either {first second : Action Parser} {made : Store}
    (h : first.Ends store (.ok p) made) (h' : second.Ends made (.ok q) after) :
    (first.either second).Ends store (.ok (.or p q)) after :=
  ends_bind_iff.mpr (.inr ⟨p, made, h,
    ends_bind_iff.mpr (.inr ⟨q, after, h', ends_done_iff.mpr ⟨rfl, rfl⟩⟩)⟩)

/-- A value that is not changed stays the same. -/
theorem map_mapValue_id (ended : Except Raised Result) : ended.map (·.mapValue id) = ended := by
  rcases ended with cause | ⟨stop, value⟩ | failure <;> rfl

namespace Parser

section Leads

variable (hpure : base.Pure pairs) (hp : Parser.Alike .caching pairs p p)
  (hstore : Relation.ReflTransGen Store.Uses base store)
  (hmatched : p.Ends source place store (.ok (.matched stop value)) middle)

include hpure hp hstore hmatched

/-- A sequence comes to run its second part. -/
theorem leads_and (hmiddle : Relation.ReflTransGen Store.Uses base middle)
    (hq : Parser.Alike .caching pairs q q) :
    Course.Leads base middle (fun value' => .tuple [value, value']) source stop q
      ((p.and q).Ends source place) := by
  intro store' hstore'
  obtain ⟨middle', hmatched', hmiddle'⟩ := hmatched.matched_elsewhere hpure hp hstore hstore'
  exact ⟨pairs, q, middle', hmiddle', ⟨pairs, hpure.uses hmiddle', hq⟩, hq,
    hpure.beside.uses hmiddle' hmiddle,
    fun _ _ => (goesOn_and p q source place).iff_of_matched hmatched'⟩

/-- What is chosen by a value comes to run a parser like the one that is made for that value
elsewhere. -/
theorem leads_into {make : Value → Action Parser} (hmake : base.Makes pairs make)
    {start made : Store} (hstart : Relation.ReflTransGen Store.Uses base start)
    (hmade : (make value).Ends start (.ok q) made)
    (hlate : Relation.ReflTransGen Store.Uses made late) :
    Course.Leads base late id source stop q ((p.into make).Ends source place) := by
  intro store' hstore'
  obtain ⟨middle', hmatched', hmiddle'⟩ := hmatched.matched_elsewhere hpure hp hstore hstore'
  obtain ⟨a, made', hmade'⟩ := hmake.returns value middle' hmiddle'
  -- what is made for the value here is like what is made for it there, but not the same
  obtain ⟨larger, q', _, hmade₁, hbeside, halike⟩ :=
    (hpure.beside.uses hmiddle' hstart).made (hmake.alike value) hmade'
  obtain ⟨heq, rfl⟩ := hmade₁.unique hmade
  cases heq
  have hpure' := hpure.uses hmiddle'
  refine ⟨larger, a, made', hmiddle'.tail (hmade'.uses hpure' (hmake.alike value)),
    hpure'.made (hmake.alike value) hmade', halike, hbeside.uses .refl hlate, fun ended after => ?_⟩
  refine ((goesOn_into p make source place).iff_of_matched hmatched').trans ⟨?_, ?_⟩
  · rintro (⟨cause, hraised, -⟩ | ⟨a', _, hmade₂, hends⟩)
    · cases (hmade'.unique hraised).1
    · obtain ⟨heq, rfl⟩ := hmade'.unique hmade₂
      cases heq
      exact ⟨ended, hends, (map_mapValue_id ended).symm⟩
  · rintro ⟨other, hends, rfl⟩
    rw [map_mapValue_id]
    exact .inr ⟨a, made', hmade', hends⟩

end Leads

namespace Composed

section Factor

variable (hpure : base.Pure pairs) (hp : Parser.Alike .caching pairs p p)
  (hknown : base.Honours known) (hcomposed : p.Composed known)
  (hstore : Relation.ReflTransGen Store.Uses base store)
  (hstore' : Relation.ReflTransGen Store.Uses base store')

include hpure hp hknown hcomposed hstore hstore'

/-- A common first part may be factored out of a choice between sequences. -/
theorem agree_and (hq : Parser.Alike .caching pairs q q)
    (hothers : ∀ r ∈ others, Parser.Alike .caching pairs r r) :
    Eval.Agree
      (fun depth =>
        (Engine.upTo depth).run (Parser.altOf (p.and q) (others.map p.and)) source place) store
      (fun depth => (Engine.upTo depth).run (p.and (Parser.altOf q others)) source place)
      store' := by
  have hstarts : ∀ r, p.StartsWith source place (p.and r) := fun r => ⟨_, goesOn_and p r _ _⟩
  refine agree_of_startsWith hpure hp hknown hcomposed hstore hstore' (hstarts q) ?_
    (goesOn_and p (Parser.altOf q others) source place) fun stop value middle hmatched => ?_
  · intro r hr
    obtain ⟨r, -, rfl⟩ := List.mem_map.mp hr
    exact hstarts r
  · -- when the first part has matched, what is left are two choices between the same parsers
    have hmiddle := hstore'.tail (hmatched.uses ⟨pairs, hpure.uses hstore', hp⟩)
    have hmade : ∀ {r}, Parser.Alike .caching pairs r r → r.Pure middle :=
      fun hr => ⟨pairs, hpure.uses hmiddle, hr⟩
    have hleads : ∀ {r}, Parser.Alike .caching pairs r r → Course.Leads base middle
        (fun value' => .tuple [value, value']) source stop r ((p.and r).Ends source place) :=
      leads_and hpure hp hstore' hmatched hmiddle
    have hforth := Course.Parallels.altOf (selects_revalued _) p.and id
      ((hleads hq).parallels (hmade hq))
      fun r hr => (hleads (hothers r hr)).parallels (hmade (hothers r hr))
    have hback := Course.Parallels.altOf (selects_revalued _).flip id p.and
      ((hleads hq).parallels_flip (hmade hq))
      fun r hr => (hleads (hothers r hr)).parallels_flip (hmade (hothers r hr))
    rw [List.map_id] at hforth hback
    refine ⟨fun ended after hends => ?_, ?_⟩
    · obtain ⟨-, other, after', hother, -, hsame⟩ := hforth _ _ _ _ hstore .refl hends
      exact ⟨_, after', ⟨other, hother, rfl⟩, hsame⟩
    · rintro _ after ⟨other, hother, rfl⟩
      obtain ⟨-, ended, after', hends, -, -⟩ := hback _ _ _ _ .refl hstore hother
      exact ⟨ended, after', hends⟩

/-- So may it out of a choice between parsers that are chosen by its value. -/
theorem agree_into {f g : Value → Action Parser} (hf : base.Makes pairs f)
    (hg : base.Makes pairs g) :
    Eval.Agree
      (fun depth => (Engine.upTo depth).run (.or (p.into f) (p.into g)) source place) store
      (fun depth => (Engine.upTo depth).run (p.into fun value => (f value).either (g value)) source
        place) store' := by
  have hstarts : ∀ make, p.StartsWith source place (p.into make) :=
    fun make => ⟨_, goesOn_into p make _ _⟩
  have hchoice : Parser.or (p.into f) (p.into g) = Parser.altOf (p.into f) [p.into g] := rfl
  rw [hchoice]
  refine agree_of_startsWith hpure hp hknown hcomposed hstore hstore' (hstarts f)
    (List.forall_mem_singleton.mpr (hstarts g))
    (goesOn_into p (fun value => (f value).either (g value)) source place)
    fun stop value middle hmatched => ?_
  have hmiddle := hstore'.tail (hmatched.uses ⟨pairs, hpure.uses hstore', hp⟩)
  obtain ⟨a, made, ha⟩ := hf.returns value middle hmiddle
  have hmade := hmiddle.tail (ha.uses (hpure.uses hmiddle) (hf.alike value))
  obtain ⟨b, late, hb⟩ := hg.returns value made hmade
  have hlate := Relation.ReflTransGen.single (hb.uses (hpure.uses hmade) (hg.alike value))
  -- the first of the two parsers is run in a store in which the second has been made as well
  have ha' := ((hpure.uses hmiddle).made (hf.alike value) ha).uses hlate
  have hb' := (hpure.uses hmade).made (hg.alike value) hb
  have hleads := leads_into hpure hp hstore' hmatched hf hmiddle ha hlate
  have hleads' := leads_into hpure hp hstore' hmatched hg hmade hb .refl
  have hforth := (hleads.parallels ha').or (selects_revalued _) (hleads'.parallels hb')
  have hback :=
    (hleads.parallels_flip ha').or (selects_revalued _).flip (hleads'.parallels_flip hb')
  refine ⟨fun ended after hends => ?_, ?_⟩
  · obtain ⟨-, ended', after', hends', -, hsame⟩ := hforth _ _ _ _ hstore .refl hends
    rw [Revalued, map_mapValue_id] at hsame
    exact ⟨ended', after', .inr ⟨_, late, ha.either hb, hends'⟩, hsame⟩
  · rintro ended after (⟨cause, hraised, -⟩ | ⟨c, _, hmade', hends⟩)
    · cases (hraised.unique (ha.either hb)).1
    · obtain ⟨heq, rfl⟩ := hmade'.unique (ha.either hb)
      cases heq
      obtain ⟨-, ended', after', hends', -, -⟩ := hback _ _ _ _ .refl hstore hends
      exact ⟨ended', after', hends'⟩

end Factor

/-- A composed parser with which several sequences begin may be factored out of a choice between
them, and out of a choice between parsers that are chosen by its value. Whatever has been done with
pure parsers before, on either side, both ways end alike or neither ends: with the same match, with
the same labels at the same place, or with the same error, but for the stages that it shows. -/
theorem left_factor (hpure : base.Pure pairs) (hp : Parser.Alike .caching pairs p p)
    (hknown : base.Honours known) (hcomposed : p.Composed known)
    (hstore : Relation.ReflTransGen Store.Uses base store)
    (hstore' : Relation.ReflTransGen Store.Uses base store') (source : Source) (place : Position) :
    (∀ q others, (∀ r ∈ q :: others, Parser.Alike .caching pairs r r) →
      Eval.Agree
        (fun depth =>
          (Engine.upTo depth).run (Parser.altOf (p.and q) (others.map p.and)) source place) store
        (fun depth => (Engine.upTo depth).run (p.and (Parser.altOf q others)) source place)
        store') ∧
    ∀ f g, base.Makes pairs f → base.Makes pairs g →
      Eval.Agree
        (fun depth => (Engine.upTo depth).run (.or (p.into f) (p.into g)) source place) store
        (fun depth =>
          (Engine.upTo depth).run (p.into fun value => (f value).either (g value)) source place)
        store' :=
  ⟨fun _ _ hothers => agree_and hpure hp hknown hcomposed hstore hstore'
      (List.forall_mem_cons.mp hothers).1 (List.forall_mem_cons.mp hothers).2,
    fun _ _ hf hg => agree_into hpure hp hknown hcomposed hstore hstore' hf hg⟩

/-- The rules that take turns make composed parsers. -/
theorem composed_turnMaker (letter other : String) {owner : Owner}
    (hlanguage : Reference.language owner.language ∈ known) :
    Action.Composed known (turnMaker letter other owner).action := by
  refine .rule fun larger cell _ hcell => .parser (.seq fun part hpart => ?_)
  rcases List.mem_cons.mp hpart with rfl | hpart
  · exact .text letter
  · rw [List.mem_singleton.mp hpart]
    exact .or (.lazy (hcell hlanguage)) (.ok .nothing)

theorem honours_turnStore :
    turnStore.Honours (Store.Honours.withLanguage turnStore {.className Store.baseName} 0) := by
  have hcreate : (Store.initial false).create Store.baseName [] turnRules = .ok (0, turnStore) :=
    rfl
  refine (Store.Honours.initial false).create hcreate rfl
    fun entry hentry larger owner _ hlanguage _ => ?_
  rcases List.mem_cons.mp hentry with rfl | hentry
  · exact composed_turnMaker "a" "b" hlanguage
  · rw [List.mem_singleton.mp hentry]
    exact composed_turnMaker "b" "a" hlanguage

/-- A rule of a language with two rules that take turns, factored out of what comes after it: from a
store in which nothing has been made, and from one in which it has. -/
theorem left_factor_turns :
    let p : Parser := .lazy ⟨0, 0⟩
    let known := Store.Honours.withLanguage turnStore {.className Store.baseName} 0
    let apart := Parser.altOf (p.and (.text "c")) [p.and (.text "d")]
    let together := p.and (Parser.altOf (.text "c") [.text "d"])
    let f : Value → Action Parser := fun _ => .done (.lazy ⟨0, 1⟩)
    let g : Value → Action Parser := fun _ => .done (.text "c")
    turnStore.Pure turnPairs ∧ Parser.Alike .caching turnPairs p p ∧ turnStore.Honours known ∧
      p.Composed known ∧ turnStore.Makes turnPairs f ∧ turnStore.Makes turnPairs g ∧
      ∃ store, Relation.ReflTransGen Store.Uses turnStore store ∧
        (turnStore.cellAt ⟨0, 0⟩).state = .unbuilt ∧ (store.cellAt ⟨0, 0⟩).state = .ready ∧
        (∃ after, ((Engine.upTo 16).run apart ['a', 'x'] .start).on turnStore
          = some (.ok (.failed ⟨⟨1, 1, 2⟩, [.str "c", .str "d"]⟩), after)) ∧
        (∃ after, ((Engine.upTo 16).run together ['a', 'x'] .start).on store
          = some (.ok (.failed ⟨⟨1, 1, 2⟩, [.str "c", .str "d"]⟩), after)) ∧
        Eval.Agree (fun depth => (Engine.upTo depth).run apart ['a', 'x'] .start) turnStore
          (fun depth => (Engine.upTo depth).run together ['a', 'x'] .start) store ∧
        Eval.Agree
          (fun depth => (Engine.upTo depth).run (.or (p.into f) (p.into g)) ['a', 'x'] .start)
          turnStore
          (fun depth => (Engine.upTo depth).run (p.into fun value => (f value).either (g value))
            ['a', 'x'] .start) store := by
  intro p known apart together f g
  have hcreate : (Store.initial false).create Store.baseName [] turnRules = .ok (0, turnStore) :=
    rfl
  have hpure : turnStore.Pure turnPairs :=
    (Store.pure_initial false).create rfl (turnRules_alike _) hcreate
  have hcells : ∀ index, index < 2 → CellId.Pairs turnPairs ⟨0, index⟩ ⟨0, index⟩ :=
    fun index hindex => .inr (.inr (.inr ⟨index, hindex, rfl⟩))
  have hp : Parser.Alike .caching turnPairs p p := .lazy (hcells 0 Nat.two_pos)
  have hknown : turnStore.Honours known := honours_turnStore
  have hcomposed : p.Composed known := .lazy (.inr (.inr (.inr ⟨0, rfl, rfl⟩)))
  have hf : turnStore.Makes turnPairs f :=
    ⟨fun _ => .parser (.lazy (hcells 1 Nat.one_lt_two)),
      fun _ store _ => ⟨_, store, Action.ends_done_iff.mpr ⟨rfl, rfl⟩⟩⟩
  have hg : turnStore.Makes turnPairs g :=
    ⟨fun _ => .parser (.text "c"), fun _ store _ => ⟨_, store, Action.ends_done_iff.mpr ⟨rfl, rfl⟩⟩⟩
  obtain ⟨store, hrun, hstate, htogether⟩ : ∃ store,
      ((Engine.upTo 12).run p ['a'] .start).on turnStore
        = some (.ok (.matched ⟨1, 1, 2⟩ (.tuple [.str "a", .nothing])), store) ∧
      (store.cellAt ⟨0, 0⟩).state = .ready ∧
      ∃ after, ((Engine.upTo 16).run together ['a', 'x'] .start).on store
        = some (.ok (.failed ⟨⟨1, 1, 2⟩, [.str "c", .str "d"]⟩), after) := ⟨_, rfl, rfl, _, rfl⟩
  have huses := Relation.ReflTransGen.single (Store.Uses.of_run ⟨turnPairs, hpure, hp⟩ hrun)
  obtain ⟨hand, hinto⟩ :=
    left_factor hpure hp hknown hcomposed .refl huses ['a', 'x'] .start
  have hthen : ∀ r ∈ [Parser.text "c", .text "d"], Parser.Alike .caching turnPairs r r :=
    List.forall_mem_cons.mpr ⟨.text "c", List.forall_mem_singleton.mpr (.text "d")⟩
  exact ⟨hpure, hp, hknown, hcomposed, hf, hg, store, huses, rfl, hstate, ⟨_, rfl⟩, htogether,
    hand (.text "c") [.text "d"] hthen, hinto f g hf hg⟩

end Composed

end Parser

end Descent
