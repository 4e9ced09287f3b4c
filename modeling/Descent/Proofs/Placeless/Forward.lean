import Descent.Proofs.Placeless
import Mathlib.Data.Option.Basic
import Mathlib.Logic.Relator

/-! # Expressions that do not look back

A regular expression without a look behind, and without the anchors that ask what stands before a
place, matches the same whatever that is.

* **`Regex.Pattern.forward`** — an expression that does not look back.
* **`Regex.Cursor.Beside`** — cursors with the same text ahead.
* **`Regex.Pattern.run_beside`** — such expressions lead from cursors beside each other to cursors
  beside each other, whatever follows them.
* **`Regex.placeless_of_forward`** — main statement: such expressions are placeless. -/

namespace Descent.Regex

/-- Whether an anchor asks for nothing but what lies ahead. -/
def Anchor.forward : Anchor → Bool
  | .lineEnd | .textEnd => true
  | .lineStart | .textStart | .wordEdge | .notWordEdge => false

/-- Whether an expression asks for nothing but what lies ahead. -/
def Pattern.forward : Pattern → Bool
  | .empty | .any | .one _ | .again _ => true
  | .cat first second | .alt first second => first.forward && second.forward
  | .group _ body | .copies _ _ _ body | .atomic body | .ahead _ body => body.forward
  | .behind .. => false
  | .anchor place => place.forward

/-- Cursors with the same text ahead and the same groups, one of them so many characters further. -/
structure Cursor.Beside (offset : Nat) (cursor other : Cursor) : Prop where
  /-- The one is further. -/
  index : cursor.index = offset + other.index
  /-- The text ahead is the same. -/
  after : cursor.after = other.after
  /-- The groups have matched the same. -/
  groups : cursor.groups = other.groups

/-- What is tried next leads from cursors beside each other to cursors beside each other. -/
def Continuation.Beside (offset : Nat) (next other : Continuation) : Prop :=
  ∀ cursor cursor' : Cursor, cursor.Beside offset cursor' →
    Option.Rel (Cursor.Beside offset) (next cursor) (other cursor')

/-- So does an expression, whatever is tried next. -/
def BodyBeside (offset : Nat) (body : Cursor → Continuation → Option Cursor) : Prop :=
  ∀ (cursor cursor' : Cursor) (next next' : Continuation), cursor.Beside offset cursor' →
    Continuation.Beside offset next next' →
      Option.Rel (Cursor.Beside offset) (body cursor next) (body cursor' next')

section Beside

variable {offset : Nat} {cursor cursor' : Cursor} {next next' : Continuation}

/-- Ending there keeps cursors beside each other. -/
theorem Continuation.beside_some : Continuation.Beside offset some some :=
  fun _ _ h => .some h

/-- One cursor after another. -/
theorem bind_beside {found found' : Option Cursor}
    (h : Option.Rel (Cursor.Beside offset) found found')
    (hnext : Continuation.Beside offset next next') :
    Option.Rel (Cursor.Beside offset) (found.bind next) (found'.bind next') := by
  cases h with
  | some h => exact hnext _ _ h
  | none => exact .none

/-- What is tried only where something else does not succeed. -/
theorem orElse_beside {found found' other other' : Option Cursor} :
    Option.Rel (Cursor.Beside offset) found found' →
      Option.Rel (Cursor.Beside offset) other other' →
        Option.Rel (Cursor.Beside offset)
          (match found with | some done => some done | none => other)
          (match found' with | some done => some done | none => other') := by
  intro h hother
  cases h with
  | some h => exact .some h
  | none => exact hother

theorem stepIf?_beside (test : Char → Bool) (h : cursor.Beside offset cursor') :
    Option.Rel (Cursor.Beside offset) (cursor.stepIf? test) (cursor'.stepIf? test) := by
  unfold Cursor.stepIf?
  rw [h.after]
  cases cursor'.after with
  | nil => exact .none
  | cons c rest =>
    simp only
    split
    · refine .some ⟨?_, rfl, h.groups⟩
      show cursor.index + 1 = offset + (cursor'.index + 1)
      rw [h.index, Nat.add_assoc]
    · exact .none

theorem past?_beside (sameChar : Char → Char → Bool) (text : List Char)
    (h : cursor.Beside offset cursor') :
    Option.Rel (Cursor.Beside offset) (cursor.past? sameChar text)
      (cursor'.past? sameChar text) := by
  induction text generalizing cursor cursor' with
  | nil => exact .some h
  | cons c text ih => exact bind_beside (stepIf?_beside _ h) fun _ _ => ih

/-! ## Repetitions -/

variable {body : Cursor → Continuation → Option Cursor}

theorem exactly_beside (hbody : BodyBeside offset body) (count : Nat)
    (h : cursor.Beside offset cursor') (hnext : Continuation.Beside offset next next') :
    Option.Rel (Cursor.Beside offset) (exactly body count cursor next)
      (exactly body count cursor' next') := by
  induction count generalizing cursor cursor' with
  | zero => exact hnext _ _ h
  | succ count ih => exact hbody _ _ _ _ h fun _ _ => ih

theorem exactlyFirst_beside (hbody : BodyBeside offset body) (count : Nat)
    (h : cursor.Beside offset cursor') :
    Option.Rel (Cursor.Beside offset) (exactlyFirst body count cursor)
      (exactlyFirst body count cursor') := by
  induction count generalizing cursor cursor' with
  | zero => exact .some h
  | succ count ih =>
    exact bind_beside (hbody _ _ _ _ h Continuation.beside_some) fun _ _ => ih

/-- Repetitions beside each other end together. -/
theorem finished_beside (left last : Option Nat) (h : cursor.Beside offset cursor') :
    finished left (last.map (offset + ·)) cursor = finished left last cursor' := by
  unfold finished
  rw [h.index]
  cases last with
  | none => rfl
  | some last => simp [beq_eq_decide]

theorem greedyLoop_beside (hbody : BodyBeside offset body)
    (hnext : Continuation.Beside offset next next') (fuel : Nat) (left last : Option Nat)
    (h : cursor.Beside offset cursor') :
    Option.Rel (Cursor.Beside offset)
      (greedyLoop body next fuel left (last.map (offset + ·)) cursor)
      (greedyLoop body next' fuel left last cursor') := by
  induction fuel generalizing cursor cursor' left last with
  | zero => exact hnext _ _ h
  | succ fuel ih =>
    unfold greedyLoop
    rw [finished_beside left last h]
    split
    · exact hnext _ _ h
    · refine orElse_beside (hbody _ _ _ _ h fun stop stop' hstop => ?_) (hnext _ _ h)
      have hrest := ih (left.map (· - 1)) (some cursor'.index) hstop
      rwa [Option.map_some, ← h.index] at hrest

theorem reluctantLoop_beside (hbody : BodyBeside offset body)
    (hnext : Continuation.Beside offset next next') (fuel : Nat) (left last : Option Nat)
    (h : cursor.Beside offset cursor') :
    Option.Rel (Cursor.Beside offset)
      (reluctantLoop body next fuel left (last.map (offset + ·)) cursor)
      (reluctantLoop body next' fuel left last cursor') := by
  induction fuel generalizing cursor cursor' left last with
  | zero => exact hnext _ _ h
  | succ fuel ih =>
    unfold reluctantLoop
    refine orElse_beside (hnext _ _ h) ?_
    rw [finished_beside left last h]
    split
    · exact .none
    · refine hbody _ _ _ _ h fun stop stop' hstop => ?_
      have hrest := ih (left.map (· - 1)) (some cursor'.index) hstop
      rwa [Option.map_some, ← h.index] at hrest

theorem possessiveLoop_beside (hbody : BodyBeside offset body) (fuel : Nat)
    (left last : Option Nat) (h : cursor.Beside offset cursor') :
    (possessiveLoop body fuel left (last.map (offset + ·)) cursor).Beside offset
      (possessiveLoop body fuel left last cursor') := by
  induction fuel generalizing cursor cursor' left last with
  | zero => exact h
  | succ fuel ih =>
    unfold possessiveLoop
    rw [finished_beside left last h]
    split
    · exact h
    · have hcopy := hbody _ _ _ _ h (@Continuation.beside_some offset)
      generalize body cursor some = found at hcopy ⊢
      generalize body cursor' some = found' at hcopy ⊢
      cases hcopy with
      | some hstop =>
        have hrest := ih (left.map (· - 1)) (some cursor'.index) hstop
        rwa [Option.map_some, ← h.index] at hrest
      | none => exact h

end Beside

/-! ## Expressions -/

/-- An anchor that asks for what lies ahead holds at cursors beside each other or at neither. -/
theorem Cursor.Beside.holds {offset : Nat} {cursor cursor' : Cursor}
    (h : cursor.Beside offset cursor') (flags : Flags) {place : Anchor}
    (hplace : place.forward = true) : cursor.holds flags place = cursor'.holds flags place := by
  cases place with
  | lineEnd | textEnd => simp only [Cursor.holds, h.after]
  | lineStart | textStart | wordEdge | notWordEdge => cases hplace

/-- An expression that does not look back leads from cursors beside each other to cursors beside each
other. -/
theorem Pattern.run_beside (flags : Flags) (offset : Nat) {pattern : Pattern}
    (hpattern : pattern.forward = true) : BodyBeside offset (pattern.run flags) := by
  induction pattern with
  | empty => exact fun cursor cursor' next next' h hnext => hnext _ _ h
  | any | one =>
    intro cursor cursor' next next' h hnext
    exact bind_beside (stepIf?_beside _ h) hnext
  | cat first second ih ih' =>
    obtain ⟨hfirst, hsecond⟩ := Bool.and_eq_true_iff.mp hpattern
    intro cursor cursor' next next' h hnext
    exact ih hfirst _ _ _ _ h fun _ _ hstop => ih' hsecond _ _ _ _ hstop hnext
  | alt first second ih ih' =>
    obtain ⟨hfirst, hsecond⟩ := Bool.and_eq_true_iff.mp hpattern
    intro cursor cursor' next next' h hnext
    exact orElse_beside (ih hfirst _ _ _ _ h hnext) (ih' hsecond _ _ _ _ h hnext)
  | group number body ih =>
    intro cursor cursor' next next' h hnext
    refine ih hpattern _ _ _ _ h fun stop stop' hstop => hnext _ _ ⟨hstop.index, hstop.after, ?_⟩
    -- the text in between is as long
    simp only [hstop.index, h.index, h.after, hstop.groups, Nat.add_sub_add_left]
  | again number =>
    intro cursor cursor' next next' h hnext
    unfold Pattern.run Cursor.remembered?
    rw [h.groups]
    split
    · exact bind_beside (past?_beside _ _ h) hnext
    · exact .none
  | copies greed least most body ih =>
    have hbody := ih hpattern
    intro cursor cursor' next next' h hnext
    cases greed with
    | greedy =>
      refine exactly_beside hbody least h fun stop stop' hstop => ?_
      simp only [hstop.after]
      exact greedyLoop_beside hbody hnext _ _ none hstop
    | reluctant =>
      refine exactly_beside hbody least h fun stop stop' hstop => ?_
      simp only [hstop.after]
      exact reluctantLoop_beside hbody hnext _ _ none hstop
    | possessive =>
      refine bind_beside (exactlyFirst_beside hbody least h) fun stop stop' hstop => ?_
      simp only [hstop.after]
      exact hnext _ _ (possessiveLoop_beside hbody _ _ none hstop)
  | atomic body ih =>
    intro cursor cursor' next next' h hnext
    exact bind_beside (ih hpattern _ _ _ _ h Continuation.beside_some) hnext
  | ahead wanted body ih =>
    intro cursor cursor' next next' h hnext
    have hfound := ih hpattern _ _ _ _ h (@Continuation.beside_some offset)
    unfold Pattern.run
    generalize body.run flags cursor some = found at hfound ⊢
    generalize body.run flags cursor' some = found' at hfound ⊢
    cases hfound with
    | some hstop =>
      cases wanted with
      | true => exact hnext _ _ ⟨h.index, h.after, hstop.groups⟩
      | false => exact .none
    | none =>
      cases wanted with
      | true => exact .none
      | false => exact hnext _ _ h
  | behind wanted width body => cases hpattern
  | anchor place =>
    intro cursor cursor' next next' h hnext
    unfold Pattern.run
    rw [h.holds flags hpattern]
    split
    · exact hnext _ _ h
    · exact .none

/-- An expression that does not look back matches the same text whatever comes before. -/
theorem Pattern.matchFrom?_eq_of_forward (flags : Flags) {pattern : Pattern}
    (hpattern : pattern.forward = true) (before after : List Char) :
    pattern.matchFrom? flags before after = pattern.matchFrom? flags [] after := by
  have hbeside : Cursor.Beside before.length ⟨before.length, before, after, []⟩
      ⟨0, [], after, []⟩ := ⟨rfl, rfl, rfl⟩
  have hrun := run_beside flags before.length hpattern _ _ _ _ hbeside Continuation.beside_some
  unfold matchFrom?
  generalize pattern.run flags ⟨before.length, before, after, []⟩ some = found at hrun ⊢
  rw [List.length_nil]
  generalize pattern.run flags ⟨0, [], after, []⟩ some = found' at hrun ⊢
  cases hrun with
  | some hstop => simp [hstop.index]
  | none => rfl

/-- An expression that does not look back is placeless. -/
theorem placeless_of_forward {regex : Regex} (h : regex.pattern.forward = true) :
    regex.Placeless := by
  intro text rest
  have hbehind : clamp (text ++ rest) text.length = text.length :=
    clamp_of_le (by simp)
  have hstart : clamp rest 0 = 0 := clamp_of_le (Nat.zero_le _)
  unfold matchAt?
  rw [hbehind, hstart]
  simp only [List.take_left, List.drop_left, List.take_zero, List.drop_zero, List.reverse_nil]
  exact Pattern.matchFrom?_eq_of_forward regex.flags h _ _

end Descent.Regex
