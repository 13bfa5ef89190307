import PipelineExpansion.Glob.Pattern
import PipelineExpansion.Pipeline.Model
import PipelineExpansion.Text.Pieces

/-!
# Triggers

A trigger section says for which branches and paths a pipeline is run. Nothing said means all branches;
`none` disables the trigger. A list is one of branches; a mapping has `branches` and `paths`, each a list
or a pair of what is included and what is excluded.
-/

namespace PipelineExpansion.Pipeline

open Glob (PatternSet)
open Template (Entry Token)

/-- What fires a trigger. -/
structure Trigger where
  enabled : Bool := true
  branches : PatternSet := ⟨[], []⟩
  paths : PatternSet := ⟨[], []⟩
deriving DecidableEq, Repr

namespace Trigger

/-- The name of a branch, without the path that branches are kept under. -/
def branchName (s : String) : String := (Text.stripPrefix? "refs/heads/" s).getD s

/-- The entry of a pattern set for a filter. -/
def patternEntry (excluded : Bool) (filter : String) : String :=
  let entry := branchName (Text.trim filter)
  if excluded then "!" ++ entry else entry

/-- The entries for a part of a pair of filters. -/
def partEntries (what : String) (e : Entry) : Except Diagnostic (List String) := do
  let excluded ←
    match e.1.name with
    | "include" => .ok false
    | "exclude" => .ok true
    | other =>
      .error (e.1.fault ("Unexpected key '" ++ other ++ "' in '" ++ what ++ "', expected include or exclude"))
  return (← e.2.expectTexts what).map (patternEntry excluded)

/-- The entries of filters: a list, or a pair of lists. -/
def filterEntries (what : String) (t : Token) : Except Diagnostic (List String) :=
  match t.entries? with
  | some parts => do return (← parts.mapM (partEntries what)).flatten
  | none => do return (← t.expectTexts what).map (patternEntry false)

/-- The pattern set of filters in a section. -/
def filters (what : String) (whole t : Token) : Except Diagnostic PatternSet := do
  (PatternSet.compile (← filterEntries what t)).mapError (·.withSpan (t.span <|> whole.span))

/-- Reads a part of a section. -/
def read (whole : Token) (trigger : Trigger) (e : Entry) : Except Diagnostic Trigger :=
  match e.1.name with
  | "branches" => do return { trigger with branches := ← filters "branches" whole e.2 }
  | "paths" => do return { trigger with paths := ← filters "paths" whole e.2 }
  | _ => .ok trigger

/-- The trigger of a section; `name` is what the section is called. -/
def ofToken? (name : String) : Option Token → Except Diagnostic Trigger
  | none | some (.null _) => .ok {}
  | some t =>
    match t with
    | .text _ s =>
      if Text.sameName s "none" then .ok { enabled := false }
      else do return { branches := ← filters name t t }
    | .sequence .. => do return { branches := ← filters name t t }
    | t => do (← t.expectMapping name).foldlM (read t) {}

/-- Whether a push to a branch fires a trigger. Paths count only where it is known what has changed. -/
def fires (trigger : Trigger) (branch : String) (changed : List String) : Bool :=
  trigger.enabled && trigger.branches.admits (branchName branch)
    && (changed.isEmpty || trigger.paths.isEmpty || changed.any trigger.paths.admits)

end Trigger

/-- What fires a pipeline on a push. -/
def pushTrigger (p : Pipeline) : Except Diagnostic Trigger := Trigger.ofToken? "trigger" p.trigger

/-- What fires a pipeline on a request to merge. -/
def requestTrigger (p : Pipeline) : Except Diagnostic Trigger := Trigger.ofToken? "pr" p.pr

end PipelineExpansion.Pipeline
