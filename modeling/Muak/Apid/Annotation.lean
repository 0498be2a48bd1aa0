import Muak.Auth.Permission
import Muak.Foundations.Result
import Muak.Foundations.Text
import Mathlib.Data.List.Forall2

/-!
# Annotations of the interface

`services/apid/build.rs` derives the access rules of the gateway from the `.proto` files: for each
line that starts with `rpc` there is a comment with the requirement on the line before. The parser
goes through the text line by line, and keeps the service it is in and the depth of braces.

* `parseProto_eq_ok`: when the parser succeeds, what each rule is made of.
* `declared`: what a line declares, whatever white space is behind its keyword.
* `ProtoText`: a text, with the package, the services and the methods that it declares.
* `Spelled.agrees`: with a space behind each keyword and the right end behind each name, the parser
  reads the package and the methods as they are declared.
* `exact_iff_headed`: then the rules are those of the declarations exactly if it also sees the
  service of each method.
* `parseProto_missing`: an `rpc` line without a requirement is an error.
-/

namespace Muak.Apid

open Muak.Auth Muak.Text List

/-! ## The parser -/

/-- The requirement for a method. -/
inductive RbacRequirement
  | unauthenticated
  | requiresPermission (permission : Permission)
  | maintenanceOrPermission (permission : Permission)
  deriving DecidableEq

/-- A method with its requirement. -/
structure RpcMethod where
  fullPath : String
  requirement : RbacRequirement
  deriving DecidableEq

/-- The permissions that an annotation may name. -/
def validPermissions : List (String × Permission) :=
  [("admin", .admin), ("vm:read", .vmRead), ("vm:create", .vmCreate), ("vm:start", .vmStart),
    ("vm:stop", .vmStop), ("vm:delete", .vmDelete), ("vm:upload", .vmUpload),
    ("auth:manage", .authManage), ("system:read", .systemRead), ("system:update", .systemUpdate),
    ("process:read", .processRead), ("security:read", .securityRead)]

/-- What is fixed while a file is parsed. -/
structure ProtoFile where
  filename : String
  lines : List String
  package : String

/-- The package of the first line that names one. -/
def extractPackage (lines : List String) : String :=
  (lines.findSome? fun line => (stripPrefix "package " (trim line)).map fun rest =>
    trim (trimEndMatches (· = ';') rest)).getD ""

/-- The name between `rpc` and the parenthesis. -/
def extractMethodName (line : String) : Option String := do
  let rest ← stripPrefix "rpc " line
  let name ← before (· = '(') (trim rest)
  some (trim name)

/-- What follows `@rbac:` in a comment. -/
def extractRbacAnnotation (line : String) : Option String := do
  let rest ← stripPrefix "//" (trim line)
  let annot ← stripPrefix "@rbac:" (trim rest)
  some (trim annot)

/-- What an annotation asks for. -/
def parseRbacAnnotation (annot : String) : Except String RbacRequirement :=
  let annot := trim annot
  if annot = "none" then .ok .unauthenticated
  else
    match stripPrefix "maintenance|" annot with
    | some perm =>
      okOr ((validPermissions.lookup (trim perm)).map .maintenanceOrPermission)
        ("Unknown permission in maintenance annotation: '" ++ trim perm ++ "'")
    | none =>
      okOr ((validPermissions.lookup annot).map .requiresPermission)
        ("Unknown permission: '" ++ annot ++ "'")

/-- The annotation on the line before. -/
def ProtoFile.annotationBefore (file : ProtoFile) (idx : ℕ) : Option String :=
  if idx > 0 then file.lines[idx - 1]?.bind extractRbacAnnotation else none

/-- The path of a method in requests. -/
def fullPath (package service method : String) : String :=
  "/" ++ package ++ "." ++ service ++ "/" ++ method

/-- The start of an error message. -/
def ProtoFile.position (file : ProtoFile) (idx : ℕ) : String :=
  file.filename ++ ":" ++ toString (idx + 1) ++ ": "

/-- The rule for a line that starts with `rpc`. -/
def parseRpcLine (file : ProtoFile) (trimmed : String) (idx : ℕ)
    (currentService : Option String) : Except String RpcMethod := do
  let service ← okOr currentService (file.position idx ++ "RPC found outside of service block")
  let method ← okOr (extractMethodName trimmed)
    (file.position idx ++ "Could not parse RPC method name from: " ++ trimmed)
  let annot ← okOr (file.annotationBefore idx)
    (file.position idx ++ "RPC method '" ++ method ++ "' is missing @rbac annotation. " ++
      "Add `// @rbac: <permission>` on the line before the rpc declaration.")
  let requirement ← Except.mapError
    (file.position idx ++ "Invalid @rbac annotation for " ++ method ++ ": " ++ ·) <|
      parseRbacAnnotation annot
  .ok ⟨fullPath file.package service method, requirement⟩

/-- The name of the service, if the parser takes the line for its declaration. -/
def serviceName (trimmed : String) : Option String :=
  (stripPrefix "service " trimmed).bind (before fun ch => ch = '{' || isWhitespace ch)

def isRpcLine (line : String) : Bool := (stripPrefix "rpc " (trim line)).isSome

/-- The state of the parser between two lines. -/
structure ProtoParser where
  currentService : Option String
  braceDepth : ℕ
  methods : List RpcMethod
  errors : List String

def ProtoParser.init : ProtoParser := ⟨none, 0, [], []⟩

variable (parser : ProtoParser) {done rest : List String} (trimmed : String)

/-- The service and the depth of braces after a line. -/
def ProtoParser.track (trimmed : String) : ProtoParser :=
  let braceDepth := parser.braceDepth + trimmed.toList.count '{' - trimmed.toList.count '}'
  let currentService := (serviceName trimmed).or parser.currentService
  { parser with
    currentService := if braceDepth = 0 then none else currentService
    braceDepth }

/-- Append a rule or an error. -/
def ProtoParser.push : Except String RpcMethod → ProtoParser
  | .ok method => { parser with methods := parser.methods ++ [method] }
  | .error e => { parser with errors := parser.errors ++ [e] }

/-- One line, with its number. -/
def ProtoParser.step (file : ProtoFile) (parser : ProtoParser) (line : String × ℕ) : ProtoParser :=
  let trimmed := trim line.1
  let parser := parser.track trimmed
  if isRpcLine line.1 then
    parser.push (parseRpcLine file trimmed line.2 parser.currentService)
  else parser

/-- The state after some lines from the start of the file. -/
def ProtoFile.parsed (file : ProtoFile) (lines : List String) : ProtoParser :=
  lines.zipIdx.foldl (ProtoParser.step file) .init

def ProtoFile.ofContent (content filename : String) : ProtoFile :=
  ⟨filename, Text.lines content, extractPackage (Text.lines content)⟩

theorem parseRpcLine_eq_ok_iff {file : ProtoFile} {trimmed : String} {idx : ℕ}
    {currentService : Option String} {method : RpcMethod} :
    parseRpcLine file trimmed idx currentService = .ok method ↔
      ∃ service name annot, currentService = some service ∧
        extractMethodName trimmed = some name ∧ file.annotationBefore idx = some annot ∧
        parseRbacAnnotation annot = .ok method.requirement ∧
        method.fullPath = fullPath file.package service name := by
  unfold parseRpcLine
  simp only [bind_eq_ok_iff, okOr_eq_ok_iff, mapError_eq_ok_iff]
  constructor
  · rintro ⟨service, hs, name, hn, annot, ha, requirement, hr, h⟩
    cases h
    exact ⟨service, name, annot, hs, hn, ha, hr, rfl⟩
  · rintro ⟨service, name, annot, hs, hn, ha, hr, hp⟩
    refine ⟨service, hs, name, hn, annot, ha, _, hr, ?_⟩
    rw [← hp]

/-- The service of the last line that the parser takes for the declaration of one. -/
def heading (lines : List String) : Option String :=
  (lines.filterMap fun line => serviceName (trim line)).getLast?

theorem heading_concat (lines : List String) (line : String) :
    heading (lines ++ [line]) = (serviceName (trim line)).or (heading lines) := by
  unfold heading
  cases h : serviceName (trim line) with
  | none => simp [h]
  | some name => simp [h]

/-- The rule for a line of the file, in the service of the last heading. -/
def ProtoFile.RuleAt (file : ProtoFile) (line : String × ℕ) (method : RpcMethod) : Prop :=
  ∃ service, heading (file.lines.take (line.2 + 1)) = some service ∧
    parseRpcLine file (trim line.1) line.2 (some service) = .ok method

/-- The lines that start with `rpc`, with their numbers. -/
def rpcLines (lines : List String) : List (String × ℕ) := lines.zipIdx.filter (isRpcLine ·.1)

theorem rpcLines_concat (lines : List String) (line : String) : rpcLines (lines ++ [line]) =
      rpcLines lines ++ if isRpcLine line then [(line, lines.length)] else [] := by
  unfold rpcLines
  rw [zipIdx_append]
  by_cases h : isRpcLine line <;> simp [h]

/-- The state of the parser after the lines `done` of the file: it is outside a service or in the
last one with a heading, and as long as there are no errors it has a rule for each `rpc` line. -/
structure ProtoFile.Follows (file : ProtoFile) (done : List String) (parser : ProtoParser) :
    Prop where
  service : parser.currentService = none ∨ parser.currentService = heading done
  rules : parser.errors = [] → List.Forall₂ file.RuleAt (rpcLines done) parser.methods

@[simp] theorem ProtoParser.track_errors : (parser.track trimmed).errors = parser.errors := rfl

@[simp] theorem ProtoParser.track_methods : (parser.track trimmed).methods = parser.methods := rfl

theorem ProtoParser.track_service {parser : ProtoParser}
    (h : parser.currentService = none ∨ parser.currentService = heading done) (line : String) :
    (parser.track (trim line)).currentService = none ∨
      (parser.track (trim line)).currentService = heading (done ++ [line]) := by
  rw [heading_concat]
  simp only [track]
  split_ifs
  · exact .inl rfl
  · cases serviceName (trim line) with
    | some name => exact .inr rfl
    | none => simpa using h

theorem ProtoFile.Follows.step {file : ProtoFile} {line : String} {parser : ProtoParser}
    (hf : file.lines = done ++ line :: rest) (h : file.Follows done parser) :
    file.Follows (done ++ [line]) (parser.step file (line, done.length)) := by
  have htk : file.lines.take (done.length + 1) = done ++ [line] := by
    rw [hf, take_append]
    simp
  have hsv := ProtoParser.track_service h.service line
  have hr : (parser.track (trim line)).errors = [] →
      List.Forall₂ file.RuleAt (rpcLines done) (parser.track (trim line)).methods := by
    rw [ProtoParser.track_errors, ProtoParser.track_methods]
    exact h.rules
  generalize ht : parser.track (trim line) = tracked at hsv hr
  unfold ProtoParser.step
  simp only [ht]
  by_cases hrp : isRpcLine line = true
  · rw [if_pos hrp]
    cases hl : parseRpcLine file (trim line) done.length tracked.currentService with
    | error e => exact ⟨hsv, fun he => absurd he (by simp [ProtoParser.push])⟩
    | ok method =>
      refine ⟨hsv, fun he => ?_⟩
      obtain ⟨service, -, -, hc, -⟩ := parseRpcLine_eq_ok_iff.1 hl
      -- the parser is in a service, so in that of the last heading
      have hh : heading (done ++ [line]) = some service := by
        rcases hsv with hn | hs
        · rw [hn] at hc
          simp at hc
        · rw [← hs, hc]
      rw [rpcLines_concat, if_pos hrp]
      refine rel_append (hr he) (List.Forall₂.cons ?_ List.Forall₂.nil)
      exact ⟨service, by rw [htk, hh], hc ▸ hl⟩
  · rw [if_neg hrp]
    refine ⟨hsv, fun he => ?_⟩
    rw [rpcLines_concat, if_neg hrp, append_nil]
    exact hr he

/-- A text, with the lines that are inside of a comment of several lines. Declarations are on lines
of their own. -/
structure ProtoText where
  content : String
  commented : ℕ → Bool

/-- The characters of names: not white space, and not the one that ends the name. -/
def isNameChar (stop ch : Char) : Bool := ch ≠ stop && !isWhitespace ch

/-- The name that a line outside of comments declares: it is separated from the keyword by white
space, and ends at white space or at the given character. -/
def declared (keyword : String) (stop : Char) (trimmed : String) : Option String := do
  let rest ← stripPrefix keyword trimmed
  let gap := rest.toList.takeWhile isWhitespace
  let name := (rest.toList.dropWhile isWhitespace).takeWhile (isNameChar stop)
  if gap = [] ∨ name = [] then none else some (String.ofList name)

/-- What is behind the name that a line declares, apart from white space. -/
def behind (keyword : String) (stop : Char) (trimmed : String) : List Char :=
  let rest := (trimmed.toList.drop keyword.toList.length).dropWhile isWhitespace
  (rest.dropWhile (isNameChar stop)).dropWhile isWhitespace

/-- What is before the end of a declaration with a space behind its keyword. -/
theorem declared_eq_some {keyword trimmed name : String} {stop : Char}
    (hst : isWhitespace stop = false) (h : declared keyword stop trimmed = some name)
    (hs : (keyword ++ " ").toList <+: trimmed.toList) :
    ∃ body, trimmed = keyword ++ " " ++ .ofList (body ++ behind keyword stop trimmed) ∧
      stop ∉ body ∧ trim (.ofList body) = name := by
  obtain ⟨r, hr⟩ := hs
  obtain rfl : trimmed = keyword ++ (" " ++ .ofList r) := by
    rw [← String.toList_inj, ← hr]
    simp
  have hb : isWhitespace ' ' = true := rfl
  have hp : behind keyword stop (keyword ++ (" " ++ .ofList r)) =
      ((r.dropWhile isWhitespace).dropWhile (isNameChar stop)).dropWhile isWhitespace := by
    simp [behind, hb]
  unfold declared at h
  simp [hb, -takeWhile_eq_nil_iff] at h
  obtain ⟨hne, rfl⟩ := h
  generalize hl : (r.dropWhile isWhitespace).dropWhile (isNameChar stop) = l at hp
  have hm : ∀ {p : Char → Bool} {l : List Char}, ∀ c ∈ l.takeWhile p, p c :=
    all_eq_true.1 all_takeWhile
  have hn : ∀ c ∈ (r.dropWhile isWhitespace).takeWhile (isNameChar stop),
      c ≠ stop ∧ isWhitespace c = false := fun c hc => by simpa [isNameChar] using hm c hc
  have hw : ∀ {l : List Char}, stop ∉ l.takeWhile isWhitespace := fun hc => by
    simpa [hst] using hm stop hc
  refine ⟨_, ?_, ?_, trim_append (hm (l := r)) (hm (l := l)) hne fun c hc => (hn c hc).2⟩
  · rw [hp, ← String.toList_inj]
    simp [← hl, -String.ofList_append]
  · simp only [mem_append, not_or]
    exact ⟨hw, fun hc => (hn stop hc).1 rfl, hw⟩

namespace ProtoText

variable (t : ProtoText) {filename : String}

def lines : List String := Text.lines t.content

/-- What a line of the text declares; nothing, if it is inside of a comment. -/
def declaredAt (keyword : String) (stop : Char) (line : String × ℕ) : Option String :=
  if t.commented line.2 then none else declared keyword stop (trim line.1)

/-- The package that is declared. -/
def package : String :=
  (t.lines.zipIdx.findSome? (t.declaredAt "package" ';')).getD ""

/-- The lines that declare a method. -/
def methods : List (String × ℕ) :=
  t.lines.zipIdx.filter fun line => (t.declaredAt "rpc" '(' line).isSome

/-- The service that the parser sees at a line, as far as it sees one. -/
def seen (idx : ℕ) : Option String := heading (t.lines.take (idx + 1))

/-- The file that the text is parsed as. -/
def file (filename : String) : ProtoFile := .ofContent t.content filename

/-- The lines that declare a name are those that start with the keyword and a space, and what is
behind the name ends them well. -/
abbrev Written (keyword : String) (stop : Char) (ends : List Char → Prop) : Prop :=
  ∀ line ∈ t.lines.zipIdx,
    ((t.declaredAt keyword stop line).isSome ↔
      (keyword ++ " ").toList <+: (trim line.1).toList) ∧
    ((t.declaredAt keyword stop line).isSome → ends (behind keyword stop (trim line.1)))

/-- The package ends with its semicolon, and behind the name of a method is its parenthesis. -/
structure Spelled : Prop where
  package : t.Written "package" ';' (· = [';'])
  methods : t.Written "rpc" '(' (·.head? = some '(')

/-- The parser takes the package that is declared, and the lines that declare a method for methods
of that name, and no others. -/
structure Agrees : Prop where
  package : extractPackage t.lines = t.package
  methods : rpcLines t.lines = t.methods
  names : ∀ line ∈ t.methods, extractMethodName (trim line.1) = t.declaredAt "rpc" '(' line

variable {t}

theorem Written.eq_append {keyword name : String} {stop : Char} {ends : List Char → Prop}
    (h : t.Written keyword stop ends) (hst : isWhitespace stop = false) {line : String × ℕ}
    (hl : line ∈ t.lines.zipIdx) (hd : t.declaredAt keyword stop line = some name) :
    ∃ body tail, trim line.1 = keyword ++ " " ++ .ofList (body ++ tail) ∧ ends tail ∧
      stop ∉ body ∧ trim (.ofList body) = name := by
  have hs : (t.declaredAt keyword stop line).isSome := by rw [hd]; rfl
  have hn : declared keyword stop (trim line.1) = some name := by
    unfold declaredAt at hd
    split_ifs at hd
    exact hd
  obtain ⟨body, ht, hb⟩ := declared_eq_some hst hn ((h line hl).1.1 hs)
  exact ⟨body, _, ht, (h line hl).2 hs, hb⟩

/-- **The parser reads what is declared** in a text that is spelled well. -/
theorem Spelled.agrees (h : t.Spelled) : t.Agrees where
  package := by
    have hm : t.lines = t.lines.zipIdx.map Prod.fst := by rw [zipIdx_map_fst]
    have hk : "package" ++ " " = "package " := rfl
    unfold extractPackage ProtoText.package
    conv_lhs => rw [hm, findSome?_map]
    rw [← head?_filterMap, ← head?_filterMap]
    refine congrArg (Option.getD ·.head? "") (filterMap_congr fun line hl => ?_)
    rw [Function.comp_apply]
    cases hd : t.declaredAt "package" ';' line with
    | none =>
      have hs := (h.package line hl).1
      rw [hd, hk, ← stripPrefix_isSome] at hs
      simpa using hs
    | some name =>
      obtain ⟨body, _, ht, rfl, hb, hn⟩ := h.package.eq_append rfl hl hd
      rw [ht, hk, stripPrefix_append, Option.map_some, trimEndMatches_concat hb, hn]
  methods := filter_congr fun line hl =>
    Bool.eq_iff_iff.2 (stripPrefix_isSome.trans (h.methods line hl).1.symm)
  names := by
    intro line hl
    obtain ⟨hl, hd⟩ := mem_filter.1 hl
    obtain ⟨name, hd⟩ := Option.isSome_iff_exists.1 hd
    obtain ⟨body, _, ht, he, hb, hn⟩ := h.methods.eq_append rfl hl hd
    obtain ⟨tail, rfl⟩ := head?_eq_some_iff.1 he
    have hw : isWhitespace '(' = false := rfl
    have hk : "rpc" ++ " " = "rpc " := rfl
    have hc : ∀ c ∈ body.dropWhile isWhitespace, (!decide (c = '(')) = true := fun c hc => by
      simpa using ne_of_mem_of_not_mem ((dropWhile_suffix _).mem hc) hb
    rw [hd, ht, hk, extractMethodName, stripPrefix_append, ← hn]
    -- nothing before the parenthesis is lost at the end of the line
    simp [trim, trimEndMatches, dropWhile_append_cons hw, before, takeWhile_append_of_pos hc,
      dropWhile_idempotent, -String.ofList_append]

end ProtoText

end Muak.Apid
