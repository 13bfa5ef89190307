import PipelineExpansion.Pipeline.Model
import PipelineExpansion.Template.Resolve

/-!
# References to templates

The composers of steps, jobs, stages and variables meet references to templates. What a reference yields
is given to them as `References`, so that each composer is a plain function of the document it is given.
-/

namespace PipelineExpansion.Pipeline

open Template (Context Entry Resolve Token)

/-- What references yield: in a context, for the text of the reference and the parameters handed over.
Variables are added to those that are there already. -/
structure References where
  steps : Context → String → Option Token → Resolve (List Step)
  jobs : Context → String → Option Token → Resolve (List Job)
  stages : Context → String → Option Token → Resolve (List Stage)
  vars : Context → List Variable → String → Option Token → Resolve (List Variable)
  pipeline : Context → String → Option Token → Resolve Pipeline

/-- References none of which may be followed. -/
def References.none : References where
  steps _ _ _ := .unfinished
  jobs _ _ _ := .unfinished
  stages _ _ _ := .unfinished
  vars _ _ _ _ := .unfinished
  pipeline _ _ _ := .unfinished

/-- The parameters that may follow the path of a template. -/
def templateParameters : List Entry → Except Diagnostic (Option Token)
  | [] => .ok Option.none
  | [(key, value)] =>
    if key.name = "parameters" then do
      let _ ← value.expectMapping "parameters"
      return some value
    else .error (key.fault ("Unexpected yaml key '" ++ key.name ++ "', expected parameters"))
  | _ :: (key, _) :: _ =>
    .error (key.fault ("Unexpected yaml key '" ++ key.name ++ "' after template reference"))

end PipelineExpansion.Pipeline
