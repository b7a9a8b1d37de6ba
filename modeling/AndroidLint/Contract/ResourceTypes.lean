/-
  File:      AndroidLint/Contract/ResourceTypes.lean
  Subject:   Parameters that take resources of a certain type.
-/
import AndroidLint.Contract.Call

namespace AndroidLint.Contract

open Source

/-- The annotations for resources, and the type that each one asks for. -/
def resourceAnnotations : List (String × String) :=
  [("AnimRes", "anim"), ("AnimatorRes", "animator"), ("ArrayRes", "array"), ("AttrRes", "attr"),
   ("BoolRes", "bool"), ("ColorRes", "color"), ("DimenRes", "dimen"), ("DrawableRes", "drawable"),
   ("FontRes", "font"), ("FractionRes", "fraction"), ("IdRes", "id"), ("IntegerRes", "integer"),
   ("InterpolatorRes", "interpolator"), ("LayoutRes", "layout"), ("MenuRes", "menu"),
   ("NavigationRes", "navigation"), ("PluralsRes", "plurals"), ("RawRes", "raw"),
   ("StringRes", "string"), ("StyleRes", "style"), ("StyleableRes", "styleable"),
   ("TransitionRes", "transition"), ("XmlRes", "xml")]

/-- The types of resources that annotations ask for. -/
def expectedTypes (annotations : List AnnotationUse) : List String :=
  (resourceAnnotations.filter fun (name, _) => (findAnnotation? annotations [name]).isSome).map (·.2)

/-- What is wrong with a resource of a type as an argument. Launcher icons are drawables too. -/
def resourceFault? (annotations : List AnnotationUse) (type name : String) : Option String :=
  let expected := expectedTypes annotations
  if (findAnnotation? annotations ["ColorInt"]).isSome && type = "color" then
    some ("Should pass resolved color instead of resource id here: " ++
          s!"`getResources().getColor(R.color.{name})`")
  else if (findAnnotation? annotations ["AnyRes"]).isSome then none
  else if expected.isEmpty || expected.contains type then none
  else if type = "mipmap" && expected.contains "drawable" then none
  else some ("Expected resource of type " ++ Text.join " or " expected)

/-- The arguments of a call that are resources of the wrong type. -/
def resourceTypeIncidents (c : ResolvedCall) : List Incident :=
  c.arguments.filterMap fun (e, p) => do
    let (type, name) ← e.resource?
    let message ← resourceFault? p.annotations type name
    pure (.new .resourceType (c.locate e.range) message)

end AndroidLint.Contract
