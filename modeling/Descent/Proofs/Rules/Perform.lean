import Descent.Proofs.Rules
import Descent.Proofs.Scripts

/-! # What the function of a rule makes

* **`Store.Resolves`** — a reference to a rule leads to a certain lazy parser.
* **`Body.perform_script`** — main statement: in every store where the references of a rule lead to
  certain lazy parsers, the function of the rule makes the parser with these lazy parsers in it, and
  leaves the store as it is. -/

namespace Descent

/-- A reference of a rule leads to the lazy parser that `cells` has for the name. -/
def Store.Resolves (store : Store) (language : InstanceId) (cells : String → CellId) :
    Mention → Prop
  | .byAttribute name => store.lookUp language name = .ok (.parser (cells name))
  | .byName name => store.getRule language name = .ok (cells name)

namespace Engine

variable {engine : Engine Eval} {store : Store}

/-- A combinator is called on the parser that a script makes. -/
theorem perform_receive {made : Action (Object Parser)} {p : Parser} (method : String)
    (h : (engine.perform made).on store = some (.ok (.parser p), store)) :
    (engine.perform (Grammar.receive method made)).on store = some (.ok p, store) := by
  rw [Grammar.receive, perform_bind_ok h]
  rfl

end Engine

namespace Grammar

/-- A choice between parsers. -/
theorem choice_parsers (p : Parser) (others : List Parser) :
    choice (.parser p :: others.map .parser) = .ok (.parser (Parser.altOf p others)) := by
  cases others with
  | nil => rfl
  | cons second others =>
    have hoperand :
        ((second :: others).map Object.parser).map Object.operand = second :: others := by
      rw [List.map_map]
      exact List.map_id _
    show Except.ok (Object.parser (Parser.altOf p
      (((second :: others).map Object.parser).map Object.operand))) = _
    rw [hoperand]

end Grammar

namespace Body

variable {engine : Engine Eval} {store : Store} {language : InstanceId} {cells : String → CellId}

/-- Labels that are texts can always replace others. -/
theorem described_labels (p : Parser) (label : String) (others : List String) :
    p.described (labels label others) = .desc p (labels label others) := by
  have hkeys : (labels label others).others.all Value.isKey := by
    unfold labels
    rw [List.all_map, List.all_eq_true]
    intro text _
    rfl
  unfold Parser.described
  rw [if_pos (by rw [List.all_cons, hkeys]; rfl)]

mutual

/-- The function of a rule makes the parser of the rule. -/
theorem perform_script : ∀ (body : Body),
    (∀ mention ∈ body.mentions, store.Resolves language cells mention) →
    (engine.perform (body.script language)).on store
      = some (.ok (.parser (body.parser cells)), store)
  | .text _, _ | .pattern _, _ | .ok _, _ | .fail _ _, _ | .eof, _ | .location, _ => rfl
  | .seq parts, h => by
    have hparts := perform_scripts parts h
    -- of several objects the operands are taken, which parsers are themselves
    have hoperand : ((parser.parsers cells parts).map Object.parser).map Object.operand
        = parser.parsers cells parts := by
      rw [List.map_map]
      exact List.map_id _
    rw [script, Engine.perform_bind_ok hparts, hoperand]
    rfl
  | .and a b, h | .next a b, h | .skip a b, h => by
    obtain ⟨ha, hb⟩ := List.forall_mem_append.mp h
    rw [script, Engine.perform_bind_ok (Engine.perform_receive _ (perform_script a ha)),
      Engine.perform_bind_ok (perform_script b hb)]
    rfl
  | .wrap of before after, h => by
    obtain ⟨hof, hrest⟩ := List.forall_mem_append.mp h
    obtain ⟨hbefore, hafter⟩ := List.forall_mem_append.mp hrest
    rw [script, Engine.perform_bind_ok (Engine.perform_receive _ (perform_script of hof)),
      Engine.perform_bind_ok (perform_script before hbefore),
      Engine.perform_bind_ok (perform_script after hafter)]
    rfl
  | .trim of around, h => by
    obtain ⟨hof, haround⟩ := List.forall_mem_append.mp h
    rw [script, Engine.perform_bind_ok (Engine.perform_receive _ (perform_script of hof)),
      Engine.perform_bind_ok (Engine.perform_receive _ (perform_script around haround))]
    rfl
  | .or a b, h => by
    obtain ⟨ha, hb⟩ := List.forall_mem_append.mp h
    rw [script, Engine.perform_bind_ok (perform_script a ha),
      Engine.perform_bind_ok (perform_script b hb)]
    rfl
  | .alt of others, h => by
    obtain ⟨hof, hothers⟩ := List.forall_mem_append.mp h
    rw [script, Engine.perform_bind_ok (perform_script of hof),
      Engine.perform_bind_ok (perform_scripts others hothers), Grammar.choice_parsers]
    rfl
  | .sepBy0 of separator, h | .sepBy1 of separator, h => by
    obtain ⟨hof, hseparator⟩ := List.forall_mem_append.mp h
    rw [script, Engine.perform_bind_ok (Engine.perform_receive _ (perform_script of hof)),
      Engine.perform_bind_ok (Engine.perform_receive _ (perform_script separator hseparator))]
    rfl
  | .node of _, h | .opt of _, h | .many0 of, h | .many1 of, h | .map of _, h => by
    rw [script, Engine.perform_bind_ok (Engine.perform_receive _ (perform_script of h))]
    rfl
  | .desc of label others, h => by
    rw [script, Engine.perform_bind_ok (Engine.perform_receive _ (perform_script of h)),
      described_labels]
    rfl
  | .rule (.byAttribute name), h => by
    have hfound : store.lookUp language name = .ok (.parser (cells name)) :=
      h _ (List.mem_singleton_self _)
    have hconsult : (Eval.consult (·.lookUp language name)).on store
        = some (.ok (.parser (cells name)), store) := by
      rw [Eval.consult_on, hfound]
    exact Eval.bind_ok hconsult
  | .rule (.byName name), h => by
    have hfound : store.getRule language name = .ok (cells name) :=
      h _ (List.mem_singleton_self _)
    have hconsult : (Eval.consult (·.getRule language name)).on store
        = some (.ok (cells name), store) := by
      rw [Eval.consult_on, hfound]
    exact Eval.bind_ok hconsult

/-- So do the functions of several. -/
theorem perform_scripts : ∀ (parts : List Body),
    (∀ mention ∈ mentions.allMentions parts, store.Resolves language cells mention) →
    (engine.perform (script.scripts language parts)).on store
      = some (.ok ((parser.parsers cells parts).map .parser), store)
  | [], _ => rfl
  | of :: others, h => by
    obtain ⟨hof, hothers⟩ := List.forall_mem_append.mp h
    rw [script.scripts, Engine.perform_bind_ok (perform_script of hof),
      Engine.perform_bind_ok (perform_scripts others hothers)]
    rfl

end

end Body

end Descent
