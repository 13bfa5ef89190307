import PipelineExpansion.Template.Schema

/-!
# The schema of pipelines

The kinds of document that pipelines are made of: root documents, the templates of steps, jobs, stages and
variables, and the documents that a pipeline extends, which hold what a root document holds.
-/

namespace PipelineExpansion.Template.Schema

/-- The name of root documents. -/
def pipelineRoot : String := "pipeline-root"

/-- The name of templates of steps. -/
def stepRoot : String := "step-template-root"

/-- The name of templates of jobs. -/
def jobRoot : String := "job-template-root"

/-- The name of templates of stages. -/
def stageRoot : String := "stage-template-root"

/-- The name of templates of variables. -/
def variableRoot : String := "variable-template-root"

/-- The name of documents that a pipeline extends. -/
def extendRoot : String := "extend-template-root"

/-- The keys of a pipeline with the kinds of their values. -/
def pipelineSections : List (String × List ValueKind) := [
  ("name", [.scalar]),
  ("parameters", [.mapping, .sequence]),
  ("variables", [.mapping, .sequence]),
  ("extends", [.mapping]),
  ("stages", [.sequence]),
  ("jobs", [.sequence]),
  ("steps", [.sequence]),
  ("resources", [.mapping]),
  ("pool", [.mapping, .string]),
  ("appendCommitMessageToRunName", [.boolean]),
  ("lockBehavior", [.string]),
  ("trigger", [.mapping, .sequence, .string]),
  ("pr", [.mapping, .sequence, .string]),
  ("schedules", [.sequence])]

/-- A definition of the keys of some sections. -/
def define (description : String) (sections : List (String × List ValueKind)) : Definition where
  description := some description
  keys := sections.map (·.1)
  sections := Dictionary.ofEntries sections

/-- A template of one list: parameters, and the list. -/
def listTemplate (description key : String) (kinds : List ValueKind) : Definition :=
  define description [("parameters", [.mapping, .sequence]), (key, kinds)]

/-- The schema of pipelines. -/
def standard : Schema where
  definitions := Dictionary.ofEntries [
    (pipelineRoot, define "A pipeline file" pipelineSections),
    (stepRoot, listTemplate "A steps template" "steps" [.sequence]),
    (jobRoot, listTemplate "A jobs template" "jobs" [.sequence]),
    (stageRoot, listTemplate "A stages template" "stages" [.sequence]),
    (variableRoot, listTemplate "A variables template" "variables" [.mapping, .sequence]),
    (extendRoot, define "A template a pipeline extends" pipelineSections)]

end PipelineExpansion.Template.Schema
