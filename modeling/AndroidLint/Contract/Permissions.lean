/-
  File:      AndroidLint/Contract/Permissions.lean
  Subject:   Methods that need permissions.

  A requirement is met by the permissions in the manifest and by those that the caller itself
  declares to require. A permission that the user can take back must also be asked for at run time,
  or the exception of its refusal be caught.
-/
import AndroidLint.Contract.Call

namespace AndroidLint.Contract

open Source

/-! ## 1. Requirements -/

/-- The permissions that a method needs. -/
inductive Requirement where
  | all (permissions : List String)
  | any (permissions : List String)
  deriving DecidableEq, Repr

namespace Requirement

/-- The permissions that are named. -/
def permissions : Requirement → List String
  | all ps => ps
  | any ps => ps

/-- The permissions that are missing where `granted` says which are granted. -/
def missing (granted : String → Bool) : Requirement → List String
  | all ps => ps.filter (!granted ·)
  | any ps => if ps.any granted then [] else ps

/-- The word between missing permissions. -/
def joiner : Requirement → String
  | all _ => " and "
  | any _ => " or "

end Requirement

/-- The permission that a constant of the platform stands for. -/
def platformPermission? (path : String) : Option String :=
  let path := (Text.afterHead? "android." path).getD path
  ((Text.afterHead? "Manifest.permission." path).or (Text.afterHead? "permission." path)).map
    ("android.permission." ++ ·)

/-- The permission that an annotation's value names; `c` is the class whose constants need no
    class in front of their names. -/
def permissionName? (s : Sources) (unit : CompilationUnit) (c : Option ClassDecl)
    (value : AnnotationValue) : Option String :=
  match value with
  | .str v => some v
  | .name path =>
    match platformPermission? path with
    | some permission => some permission
    | none => do
      let (owner, field) ← s.findField? unit c path
      let home ← s.unitOf? owner
      match ← s.constant? home (some owner) (← field.initializer) with
      | .str v => some v
      | _ => none
  | _ => none

/-- The requirement that an annotation states. -/
def Requirement.ofUse? (s : Sources) (unit : CompilationUnit) (c : Option ClassDecl)
    (a : AnnotationUse) : Option Requirement :=
  let names (value : AnnotationValue) := value.elements.filterMap (permissionName? s unit c)
  match (a.value? "value").or (a.value? "allOf"), a.value? "anyOf" with
  | some value, _ => some (.all (names value))
  | none, some value => some (.any (names value))
  | none, none => none

/-- The requirement that the method of a call, or its class, states. -/
def requirement? (c : ResolvedCall) : Option Requirement := do
  let home ← c.sources.unitOf? c.owner
  let a ← (findAnnotation? c.method.annotations ["RequiresPermission"]).or
    (findAnnotation? c.owner.annotations ["RequiresPermission"])
  let r ← Requirement.ofUse? c.sources home (some c.owner) a
  if r.permissions.isEmpty then none else some r

/-- The permissions that the caller itself declares to require. -/
def declaredPermissions (c : ResolvedCall) : List String :=
  let requirement : Option Requirement := do
    let caller ← c.call.caller
    let a ← findAnnotation? caller.annotations ["RequiresPermission"]
    Requirement.ofUse? c.sources c.unit c.caller? a
  (requirement.map Requirement.permissions).getD []

/-! ## 2. Permissions that the user can take back -/

/-- The permissions that the user can take back. -/
def revocablePermissions : List String :=
  ["android.permission.ACCESS_COARSE_LOCATION", "android.permission.ACCESS_FINE_LOCATION",
   "android.permission.ACCESS_BACKGROUND_LOCATION", "android.permission.ADD_VOICEMAIL",
   "android.permission.BODY_SENSORS", "android.permission.CALL_PHONE",
   "android.permission.CAMERA", "android.permission.GET_ACCOUNTS",
   "android.permission.PROCESS_OUTGOING_CALLS", "android.permission.READ_CALENDAR",
   "android.permission.READ_CALL_LOG", "android.permission.READ_CELL_BROADCASTS",
   "android.permission.READ_CONTACTS", "android.permission.READ_EXTERNAL_STORAGE",
   "android.permission.READ_PHONE_STATE", "android.permission.READ_PROFILE",
   "android.permission.READ_SMS", "android.permission.READ_SOCIAL_STREAM",
   "android.permission.RECEIVE_MMS", "android.permission.RECEIVE_SMS",
   "android.permission.RECEIVE_WAP_PUSH", "android.permission.RECORD_AUDIO",
   "android.permission.SEND_SMS", "android.permission.USE_FINGERPRINT",
   "android.permission.USE_SIP", "android.permission.WRITE_CALENDAR",
   "android.permission.WRITE_CALL_LOG", "android.permission.WRITE_CONTACTS",
   "android.permission.WRITE_EXTERNAL_STORAGE", "android.permission.WRITE_PROFILE",
   "android.permission.WRITE_SETTINGS", "android.permission.WRITE_SOCIAL_STREAM",
   "com.android.voicemail.permission.ADD_VOICEMAIL"]

/-- The first platform level at which the user can take permissions back. -/
def runtimePermissionLevel : Nat := 23

/-- The exceptions whose handler takes a refusal. -/
def refusalHandlers : List String :=
  ["SecurityException", "RuntimeException", "Exception", "Throwable"]

/-- Whether a refusal of the user is provided for. -/
def handlesRefusal (c : ResolvedCall) (caller : Caller) : Bool :=
  caller.checksPermission || c.call.caught.any fun e => refusalHandlers.contains (Text.lastPart '.' e)

/-! ## 3. Calls -/

/-- What the project grants. -/
structure Grants where
  /-- The permissions in the manifest. -/
  manifest : List String
  /-- The platform level aimed at. -/
  targetLevel : Option Nat

/-- Whether permissions can be taken back while the application runs. -/
def Grants.areRevocable (g : Grants) : Bool :=
  g.targetLevel.any (runtimePermissionLevel ≤ ·)

/-- The permissions that a call lacks. -/
def missingPermissions (g : Grants) (c : ResolvedCall) (r : Requirement) : List String :=
  r.missing fun p => (declaredPermissions c).contains p || g.manifest.contains p

/-- Whether a call needs a permission that the manifest grants and the user can take back. -/
def needsRevocable (g : Grants) (c : ResolvedCall) (r : Requirement) : Bool :=
  r.permissions.any fun p =>
    revocablePermissions.contains p && !(declaredPermissions c).contains p && g.manifest.contains p

/-- What is wrong with the permissions of a call. -/
def permissionFault? (g : Grants) (c : ResolvedCall) (r : Requirement) : Option String :=
  match missingPermissions g c r with
  | [] => do
    let caller ← c.call.caller
    if needsRevocable g c r && g.areRevocable && !handlesRefusal c caller then
      some ("Call requires permission which may be rejected by user: code should explicitly check " ++
            "to see if permission is available (with `checkPermission`) or explicitly handle a " ++
            "potential `SecurityException`")
    else none
  | missing =>
    some (s!"Missing permissions required by {c.owner.displayName}.{c.methodName}: " ++
      Text.join r.joiner missing)

/-- A call whose permissions are not granted or may be refused. -/
def permissionIncidents (g : Grants) (c : ResolvedCall) : List Incident :=
  ((requirement? c).bind (permissionFault? g c)).toList.map
    (Incident.new .missingPermission c.location)

end AndroidLint.Contract
