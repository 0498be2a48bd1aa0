import Mathlib.Logic.Basic

/-!
# Permissions

`libs/config/src/permission.rs`: the permissions of a user, their text forms and the patterns that
stand for a whole category.
-/

namespace Muak.Auth

/-- What a user may be allowed to do. -/
inductive Permission
  | admin
  | vmRead
  | vmCreate
  | vmStart
  | vmStop
  | vmDelete
  | vmUpload
  | authManage
  | systemRead
  | systemUpdate
  | processRead
  | securityRead
  deriving DecidableEq

/-- The categories that support a wildcard. -/
def categories : List String := ["vm", "system", "auth", "process", "security"]

namespace Permission

/-- The text form. -/
def display : Permission → String
  | admin => "admin"
  | vmRead => "vm:read"
  | vmCreate => "vm:create"
  | vmStart => "vm:start"
  | vmStop => "vm:stop"
  | vmDelete => "vm:delete"
  | vmUpload => "vm:upload"
  | authManage => "auth:manage"
  | systemRead => "system:read"
  | systemUpdate => "system:update"
  | processRead => "process:read"
  | securityRead => "security:read"

def fromStr (s : String) : Except String Permission :=
  match s with
  | "admin" => .ok admin
  | "vm:read" => .ok vmRead
  | "vm:create" => .ok vmCreate
  | "vm:start" => .ok vmStart
  | "vm:stop" => .ok vmStop
  | "vm:delete" => .ok vmDelete
  | "vm:upload" => .ok vmUpload
  | "auth:manage" => .ok authManage
  | "system:read" => .ok systemRead
  | "system:update" => .ok systemUpdate
  | "process:read" => .ok processRead
  | "security:read" => .ok securityRead
  | _ => .error ("Unknown permission: " ++ s)

theorem fromStr_display (p : Permission) : fromStr p.display = .ok p := by
  cases p <;> rfl

/-- The permissions of a category, which `category:*` stands for. -/
def allInCategory (category : String) : List Permission :=
  match category with
  | "vm" => [vmRead, vmCreate, vmStart, vmStop, vmDelete, vmUpload]
  | "system" => [systemRead, systemUpdate]
  | "auth" => [authManage]
  | "process" => [processRead]
  | "security" => [securityRead]
  | _ => []

/-- `strip_suffix(":*")`. -/
def stripWildcard (pattern : String) : Option String :=
  match pattern.toList.reverse with
  | '*' :: ':' :: rest => some (String.ofList rest.reverse)
  | _ => none

/-- The permissions a pattern stands for. -/
def expandPattern (pattern : String) : Except String (List Permission) :=
  match stripWildcard pattern with
  | none => (fromStr pattern).map fun p => [p]
  | some category =>
    if allInCategory category = [] then
      .error ("Unknown permission category: '" ++ category ++ "'. Valid categories: " ++
        ", ".intercalate categories)
    else .ok (allInCategory category)

example : expandPattern "auth:*" = .ok [authManage] := rfl

end Permission

end Muak.Auth
