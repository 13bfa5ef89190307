import PipelineExpansion.Proofs.Expression.Parse
import PipelineExpansion.Proofs.Pipeline.Binding
import PipelineExpansion.Proofs.Pipeline.Congruence

/-!
# Looking up parameters

A template sees the values of its parameters through expressions such as `parameters['name']`. Names
are bound as they are spelled, but an expression finds the first name that is equal up to the case
of ASCII letters. So a parameter is found under its own name unless one that is declared before it
differs from it by case alone, which then hides it.

## Main results

* `evaluate_lookupOf`: what the expression `parameters['name']` yields for a declared name.
* `capitalName_isHidden`: names that are merely distinct are not enough.
-/

namespace PipelineExpansion

/-! ### The text of a lookup -/

namespace Expression

/-- The text of an index by a text, with the quotes in it doubled, behind a name. -/
def indexText (root name : String) : String :=
  root ++ "['" ++ String.ofList (doubled name.toList) ++ "']"

theorem tokenize_indexText {root : String} (hroot : IsIdentifier root) (name : String) :
    tokenize (indexText root name) =
      .ok [.name root, .symbol .openBracket, .text name, .symbol .closeBracket] := by
  obtain ⟨c, cs, hshape⟩ := hroot.shape
  have hlist : (indexText root name).toList =
      [] ++ c :: (cs ++ '[' :: '\'' :: (doubled name.toList ++ ['\'', ']'])) := by
    simp [indexText, hshape.toList]
  have hlength : ∃ n, (indexText root name).length + 1 = n + 5 := by
    refine ⟨(indexText root name).length - 4, ?_⟩
    rw [← String.length_toList, hlist]
    simp only [List.length_append, List.length_cons]
    omega
  obtain ⟨n, hn⟩ := hlength
  have hword : lexeme c (cs ++ '[' :: '\'' :: (doubled name.toList ++ ['\'', ']'])) =
      .ok (.name root, '[' :: '\'' :: (doubled name.toList ++ ['\'', ']'])) := by
    have hbracket : continuesName '[' = false := by decide
    rw [lexeme_of_beginsName hshape.begins, List.takeWhile_append_of_pos hshape.continues,
      List.dropWhile_append_of_pos hshape.continues, List.takeWhile_cons, List.dropWhile_cons,
      hbracket]
    simp only [Bool.false_eq_true, if_false, List.append_nil]
    rw [← hshape.toList, String.ofList_toList, hroot.ofName]
  have hquoted : lexeme '\'' (doubled name.toList ++ ['\'', ']']) = .ok (.text name, [']']) := by
    have hend : [']'].head? ≠ some '\'' := by decide
    simp only [lexeme, quoted?_doubled name.toList hend, String.ofList_toList]
  have hnone : ∀ d ∈ ([] : List Char), Text.isBlank d = true := List.forall_mem_nil _
  have hc : Text.isBlank c = false := by
    by_contra hblank
    have hbegins := beginsName_of_isBlank (by simpa using hblank)
    rw [hshape.begins] at hbegins
    cases hbegins
  rw [tokenize, hn, hlist]
  refine tokens_lexeme hnone hc hword (fun position => ?_) 0
  refine tokens_lexeme (c := '[') hnone (by decide) rfl (fun position => ?_) position
  refine tokens_lexeme (c := '\'') hnone (by decide) hquoted (fun position => ?_) position
  refine tokens_lexeme (c := ']') hnone (by decide) rfl (fun position => ?_) position
  rfl

theorem parse_indexText {root : String} (hroot : IsIdentifier root) (name : String) :
    parse (indexText root name) = .ok (.reference root [.index (.text name)]) := by
  have htokens := parseAll_tokens (e := .reference root [.index (.text name)])
    ⟨hroot, trivial, trivial⟩
  simp only [Expr.tokens, Expr.partTokens, List.singleton_append] at htokens
  rw [parse, tokenize_indexText hroot]
  simp only [bind, Except.bind, ofTokens, htokens]
  rfl

end Expression

/-! ### Finding the first name -/

namespace Template

/-- In pairs, the first name that is equal up to case is found. -/
theorem Token.lookup?_ofPairs (pairs : List (String × Token)) (name : String) :
    (Token.ofPairs pairs).lookup? name =
      (pairs.find? fun b => Text.sameName b.1 name).map (·.2) := by
  simp only [Token.lookup?, Token.ofPairs, Token.entries?, Option.bind_eq_bind, Option.bind_some,
    List.find?_map, Option.map_map, Function.comp_def]

end Template

namespace Pipeline

open Template (Context Journal Resolve Token)

variable {refs : References} {c : Context} {j j' : Journal}

/-- The expression that looks a parameter up. -/
def lookupOf (name : String) : String := Expression.indexText "parameters" name

/-- The named values that a template is evaluated with. -/
def templateNames (bound vars : Token) : Token :=
  .ofPairs [("parameters", bound), ("variables", vars)]

/-- A template that was opened is evaluated with these values. -/
theorem fillTemplate_eq (refs : References) (c : Context) (parameters : Option Token)
    (definition : String) (root : Token) (usage : Template.Usage) :
    fillTemplate refs c parameters definition (root, usage) =
      Resolve.ofExcept (c.schema.validate definition root) >>= fun _ =>
        bindParameters refs c (root.get? "parameters") parameters >>= fun bound =>
          Resolve.ofExcept (visibleVariables c (root.get? "variables")) >>= fun vars =>
            Resolve.charged
              (Template.evaluate c.limits (withoutParameters root) (templateNames bound vars))
              usage :=
  rfl

/-- Looking a parameter up yields the value of the first one of its name up to case. -/
theorem evaluate_lookupOf_eq {pairs : List (String × Token)} {first : String × Token} {name : String}
    (hfirst : pairs.find? (fun b => Text.sameName b.1 name) = some first) (vars : Token) :
    Expression.evaluate (lookupOf name) (templateNames (.ofPairs pairs) vars) = .ok first.2 := by
  have hroot : Expression.IsIdentifier "parameters" :=
    Expression.isIdentifier_of_tokenize (by rfl)
  have hparameters : (templateNames (.ofPairs pairs) vars).lookup? "parameters" =
      some (.ofPairs pairs) := by
    have hname : Text.sameName "parameters" "parameters" = true := by decide
    rw [templateNames, Token.lookup?_ofPairs]
    simp only [List.find?_cons, hname, Option.map_some]
  have hmember : Expression.itemOf (.ofPairs pairs) (.ofText name) = first.2 := by
    have hitem : Expression.itemOf (.ofPairs pairs) (.ofText name) =
        ((Token.ofPairs pairs).lookup? name).getD .ofNull := rfl
    rw [hitem, Token.lookup?_ofPairs, hfirst]
    rfl
  rw [Expression.evaluate, lookupOf, Expression.parse_indexText hroot]
  simp only [bind, Except.bind, Expression.eval, hparameters, Expression.evalParts, hmember,
    Except.mapError]

/-- Where no two names are equal up to case, a name is the first of its kind. -/
theorem find?_sameName {pairs : List (String × Token)}
    (hnames : (pairs.map (·.1)).Pairwise fun a b => Text.sameName a b = false) :
    ∀ b ∈ pairs, pairs.find? (fun first => Text.sameName first.1 b.1) = some b := by
  induction pairs with
  | nil => exact List.forall_mem_nil _
  | cons own rest ih =>
      rw [List.map_cons, List.pairwise_cons] at hnames
      refine List.forall_mem_cons.mpr ⟨?_, fun b hb => ?_⟩
      · exact List.find?_cons_of_pos (by simp [Text.sameName])
      · have hdiffers := hnames.1 b.1 (List.mem_map_of_mem hb)
        rw [List.find?_cons_of_neg (by simp [hdiffers])]
        exact ih hnames.2 b hb

theorem exists_find?_sameName {pairs : List (String × Token)} {b : String × Token} (hb : b ∈ pairs) :
    ∃ first, pairs.find? (fun first => Text.sameName first.1 b.1) = some first := by
  rw [← Option.isSome_iff_exists, List.find?_isSome]
  exact ⟨b, hb, by simp [Text.sameName]⟩

/-- What binding yields are the values that the declared parameters take. -/
theorem binds_of_bindParameters {declared values : Option Token} {bound : Token}
    (hrun : (bindParameters refs c declared values).run.run j = some (.ok bound, j')) :
    ∃ provided pairs, providedOf values = .ok provided ∧ Binds refs c provided declared j pairs j' ∧
      bound = .ofPairs pairs := by
  rw [bindParameters_eq] at hrun
  obtain ⟨provided, j₁, hread, hrun⟩ := Resolve.run_bind_eq_ok.mp hrun
  obtain ⟨hprovided, rfl⟩ := Resolve.run_ofExcept_eq_ok.mp hread
  obtain ⟨pairs, j₂, hpairs, hrun⟩ := Resolve.run_bind_eq_ok.mp hrun
  obtain ⟨hsettle, rfl⟩ := Resolve.run_ofExcept_eq_ok.mp hrun
  refine ⟨provided, pairs, hprovided, run_bindDeclaration_eq_ok.mp hpairs, ?_⟩
  rw [settle] at hsettle
  split at hsettle
  · exact (Except.ok.inj hsettle).symm
  · cases hsettle

/-- **A declared name is looked up as the first declared one that is equal to it up to case.** So
where no two declared names are equal up to case, looking a name up yields the value that is bound
to it. -/
theorem evaluate_lookupOf {declared values : Option Token} {bound : Token}
    (hrun : (bindParameters refs c declared values).run.run j = some (.ok bound, j')) (vars : Token) :
    ∃ provided pairs, providedOf values = .ok provided ∧ Binds refs c provided declared j pairs j' ∧
      bound = .ofPairs pairs ∧
      (∀ b ∈ pairs, ∃ first, pairs.find? (fun first => Text.sameName first.1 b.1) = some first ∧
        Expression.evaluate (lookupOf b.1) (templateNames bound vars) = .ok first.2) ∧
      ((pairs.map (·.1)).Pairwise (fun a b => Text.sameName a b = false) → ∀ b ∈ pairs,
        Expression.evaluate (lookupOf b.1) (templateNames bound vars) = .ok b.2) := by
  obtain ⟨provided, pairs, hprovided, hbinds, rfl⟩ := binds_of_bindParameters hrun
  refine ⟨provided, pairs, hprovided, hbinds, rfl, fun b hb => ?_, fun hnames b hb => ?_⟩
  · obtain ⟨first, hfirst⟩ := exists_find?_sameName hb
    exact ⟨first, hfirst, evaluate_lookupOf_eq hfirst vars⟩
  · exact evaluate_lookupOf_eq (find?_sameName hnames b hb) vars

/-- Two parameters, one of them with a quote in its name. -/
def ownersAndTarget : Token :=
  .ofPairs [("owner's", .ofText "ops"), ("target", .ofText "dev")]

/-- A value for one of these. -/
def prodTarget : List Template.Entry := [(⟨.unknown, "target"⟩, .ofText "prod")]

/-- The values that these take then. -/
def ownersAndProd : List (String × Token) :=
  [("owner's", .ofText "ops"), ("target", .ofText "prod")]

theorem evaluate_lookupOf_ownersAndTarget :
    lookupOf "owner's" = "parameters['owner''s']" ∧
      (bindParameters .none noFiles (some ownersAndTarget)
        (some (.mapping .unknown prodTarget))).run.run {} = some (.ok (.ofPairs ownersAndProd), {}) ∧
      Expression.evaluate (lookupOf "owner's") (templateNames (.ofPairs ownersAndProd) .ofNull) =
        .ok (.ofText "ops") ∧
      Expression.evaluate (lookupOf "target") (templateNames (.ofPairs ownersAndProd) .ofNull) =
        .ok (.ofText "prod") := by
  have hbinds : Binds .none noFiles prodTarget (some ownersAndTarget) {} ownersAndProd {} := .mapping
  have hcount : settle prodTarget ownersAndProd = .ok (.ofPairs ownersAndProd) := by
    rw [settle, if_pos (by decide)]
  have hrun : (bindParameters .none noFiles (some ownersAndTarget)
      (some (.mapping .unknown prodTarget))).run.run {} =
        some (.ok (.ofPairs ownersAndProd), {}) := by
    rw [run_bindParameters hbinds, hcount]
  obtain ⟨provided, pairs, hprovided, hbinds', -, -, hlookup⟩ := evaluate_lookupOf hrun .ofNull
  obtain rfl : prodTarget = provided := Except.ok.inj hprovided
  obtain rfl : ownersAndProd = pairs := by
    cases hbinds'
    rfl
  have hvalues := hlookup (by decide)
  have hquoted : lookupOf "owner's" = "parameters['owner''s']" := by decide +kernel
  exact ⟨hquoted, hrun, hvalues ("owner's", .ofText "ops") (.head _),
    hvalues ("target", .ofText "prod") (.tail _ (.head _))⟩

/-- Two parameters whose names differ by case alone. -/
def smallAndCapital : List (String × Token) := [("a", .ofText "one"), ("A", .ofText "two")]

/-- The value of the parameter with the capital name is out of reach. -/
theorem capitalName_isHidden :
    ¬ ∀ (refs : References) (c : Context) (declared values : Option Token) (bound vars : Token)
        (provided : List Template.Entry) (pairs : List (String × Token)) (j j' : Journal),
      (bindParameters refs c declared values).run.run j = some (.ok bound, j') →
        providedOf values = .ok provided → Binds refs c provided declared j pairs j' →
        (pairs.map (·.1)).Nodup → ∀ b ∈ pairs,
          Expression.evaluate (lookupOf b.1) (templateNames bound vars) = .ok b.2 := by
  intro hlookup
  have hbinds : Binds .none noFiles [] (some (.ofPairs smallAndCapital)) {} smallAndCapital {} :=
    .mapping
  have hcapital := hlookup .none noFiles (some (.ofPairs smallAndCapital)) none
    (.ofPairs smallAndCapital) .ofNull [] smallAndCapital {} {} rfl rfl hbinds (by decide)
    ("A", .ofText "two") (.tail _ (.head _))
  have hfirst : smallAndCapital.find? (fun b => Text.sameName b.1 "A") = some ("a", .ofText "one") :=
    List.find?_cons_of_pos (by decide)
  have hsame : Token.ofText "one" = .ofText "two" :=
    Except.ok.inj ((evaluate_lookupOf_eq hfirst .ofNull).symm.trans hcapital)
  injection hsame with _ htext
  exact absurd htext (by decide)

end Pipeline
end PipelineExpansion
