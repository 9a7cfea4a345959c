import JsonTemplate.Context.Augment
import JsonTemplate.Template.Walk

namespace JsonTemplate

-- A template that is rendered in place, the context it is rendered against, and how.
structure Engine where
  template : Json
  context : Context
  config : Config

namespace Engine

variable {σ : Type}

def accessorRule (config : Config) : AccessorRule := ⟨config.accessorPrefix, config.overwriteUserKeys⟩

def augmentContext (engine : Engine) : Engine :=
  { engine with context := (engine.context.augment (accessorRule engine.config)).1 }

def walker (engine : Engine) (host : Host σ) : Walker σ :=
  ⟨evaluate host engine.context.entries, engine.config⟩

-- Renders the template against the augmented context. After a failure the template is as far
-- rendered as the walk had come.
def render (engine : Engine) (host : Host σ) : StateM σ (Engine × Option RenderError) := do
  let engine := engine.augmentContext
  let (template, failure) ← (engine.walker host).walk engine.template
  return ({ engine with template }, failure)

-- The same, but a failure leaves the template as it was. The context stays augmented, and what the
-- host was asked for stays done.
def renderAtomic (engine : Engine) (host : Host σ) : StateM σ (Engine × Option RenderError) := do
  let engine := engine.augmentContext
  let (template, failure) ← (engine.walker host).walk engine.template
  return (if failure.isSome then engine else { engine with template }, failure)

end Engine

end JsonTemplate
