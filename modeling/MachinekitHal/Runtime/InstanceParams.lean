import MachinekitHal.Lib.Updates

/-!
`rtapi_app.cc`: module arguments and instance parameters.

The parameters of a module are variables of its shared object, found by symbols that give
the address and a type string. A `key=value` argument writes the variable, element by element
for an array. None of this reads a variable, so an argument is modelled by the writes it makes
and whether it is accepted; what was written before the error stays.

* `doOneItem`, `setArray`, `doModuleArg`, `doModuleArgs`: the writes of arguments.
* `recordInstparms`, `ModuleFile.load`, `Loaded.newinst`: loading a module, and a newinst
  command up to the variables its constructor sees.
* `newinst_isolation`: these are the defaults overridden by the arguments exactly if every
  other variable was last written, if ever, with its default.
-/

namespace MachinekitHal

open Updates

/-! ### Numbers -/

/-- `isspace`. -/
def isSpace (c : Char) : Bool := [' ', '\t', '\n', '\r', '\x0b', '\x0c'].contains c

/-- The value of a digit of a base up to 36. -/
def digitVal (c : Char) : Option ℕ :=
  if '0' ≤ c ∧ c ≤ '9' then some (c.toNat - 48)
  else if 'a' ≤ c ∧ c ≤ 'z' then some (c.toNat - 87)
  else if 'A' ≤ c ∧ c ≤ 'Z' then some (c.toNat - 55)
  else none

/-- Whether `c` is a digit of the base. -/
def isDigitOf (base : ℕ) (c : Char) : Bool := (digitVal c).any fun d => d < base

/-- The number that the digits in front make, and the rest. -/
def readDigits (base acc : ℕ) : List Char → ℕ × List Char
  | [] => (acc, [])
  | c :: cs =>
    if isDigitOf base c then readDigits base (acc * base + (digitVal c).getD 0) cs
    else (acc, c :: cs)

/-- An unsigned number in C notation: `0x` and `0` choose the base. -/
def readNumber : List Char → Option (ℕ × List Char)
  | '0' :: 'x' :: c :: cs =>
    if isDigitOf 16 c then some (readDigits 16 0 (c :: cs)) else some (0, 'x' :: c :: cs)
  | '0' :: 'X' :: c :: cs =>
    if isDigitOf 16 c then some (readDigits 16 0 (c :: cs)) else some (0, 'X' :: c :: cs)
  | '0' :: cs => some (readDigits 8 0 cs)
  | c :: cs => if isDigitOf 10 c then some (readDigits 10 0 (c :: cs)) else none
  | [] => none

/-- The sign, the number and what `endp` points to; without a number, the whole string. -/
def scanNumber (s : String) : Bool × ℕ × List Char :=
  let t := s.toList.dropWhile isSpace
  let (neg, u) := match t with
    | '-' :: u => (true, u)
    | '+' :: u => (false, u)
    | u => (false, u)
  match readNumber u with
  | some (n, rest) => (neg, n, rest)
  | none => (false, 0, s.toList)

/-- `strtol(s, &endp, 0)`: the value, and whether `*endp` is zero. -/
def strtol (s : String) : ℤ × Bool :=
  let (neg, n, rest) := scanNumber s
  let v : ℤ := if neg then -n else n
  (max (-2 ^ 63) (min (2 ^ 63 - 1) v), rest.isEmpty)

/-- `strtoul(s, &endp, 0)`. -/
def strtoul (s : String) : ℕ × Bool :=
  let (neg, n, rest) := scanNumber s
  let v := if 2 ^ 64 ≤ n then 2 ^ 64 - 1 else if neg then (2 ^ 64 - n) % 2 ^ 64 else n
  (v, rest.isEmpty)

example : strtol " -0x1F" = (-31, true) := by decide
example : strtol "12a" = (12, false) := by decide

/-! ### Arguments -/

/-- The value of a variable, or of an element of an array. -/
inductive ItemValue
  | num (v : ℤ)
  | str (s : String)
  deriving DecidableEq

/-- A variable, by its name, and the index of an element; a scalar has the element `0`. -/
abbrev Item := String × ℕ

/-- Values of all variables. -/
abbrev Vars := Item → ItemValue

/-- Writes in the order in which they are made. -/
abbrev Writes := List (Item × ItemValue)

/-- The type of a parameter, from its type string: one character, or `<a>-<b><char>` as
`sscanf` reads it. -/
inductive ItemType
  | scalar (c : Char)
  | array (b : ℤ) (c : Char)
  | corrupt
  deriving DecidableEq

/-- `do_one_item`: what is written, and whether the value is accepted. The number is written
before the check that all of the value was read. -/
def doOneItem (itemType : Char) (value : String) : Option ItemValue × Bool :=
  match itemType with
  | 'l' => (some (.num (strtol value).1), (strtol value).2)
  | 'i' => (some (.num (Int32.ofInt (strtol value).1).toInt), (strtol value).2)
  | 'u' => (some (.num ((strtoul value).1 % 2 ^ 32 : ℕ)), (strtoul value).2)
  | 's' => (some (.str value), true)
  | _ => (none, false)

/-- The write to the element `i` of the variable `name`. -/
def setItem (name : String) (itemType : Char) (i : ℕ) (value : String) : Writes × Bool :=
  ((doOneItem itemType value).1.toList.map fun v => ((name, i), v), (doOneItem itemType value).2)

/-- The elements of an array from `i` on, at most `b` in all. -/
def setArray (name : String) (b : ℤ) (itemType : Char) : ℕ → List String → Writes × Bool
  | _, [] => ([], true)
  | i, value :: values =>
    if (i : ℤ) = b then ([], false) else
    let here := setItem name itemType i value
    if here.2 then
      let rest := setArray name b itemType (i + 1) values
      (here.1 ++ rest.1, rest.2)
    else here

/-- `remove_quotes`. -/
def removeQuotes (s : String) : String := String.ofList (s.toList.filter fun c => c != '"')

/-- The name and the value of `name=value`. -/
def splitArg (s : String) : Option (String × String) :=
  if s.toList.contains '=' then
    some (String.ofList (s.toList.takeWhile fun c => c != '='),
      String.ofList ((s.toList.dropWhile fun c => c != '=').drop 1))
  else none

/-- One argument of `do_module_args`; `table` is what the symbols of the module say. -/
def doModuleArg (table : List (String × ItemType)) (arg : String) : Writes × Bool :=
  match splitArg (removeQuotes arg) with
  | none => ([], false)
  | some (name, value) =>
    match table.lookup name with
    | none => ([], false)
    | some .corrupt => ([], false)
    | some (.scalar c) => setItem name c 0 value
    | some (.array b c) =>
      setArray name b c 0 ((value.toList.splitOn ',').map String.ofList)

/-- `do_module_args`: it stops at the first argument that is not accepted. -/
def doModuleArgs (table : List (String × ItemType)) : List String → Writes × Bool
  | [] => ([], true)
  | arg :: args =>
    let here := doModuleArg table arg
    if here.2 then
      let rest := doModuleArgs table args
      (here.1 ++ rest.1, rest.2)
    else here

/-- `separate_kv` once the separator or an option was seen. -/
def extraArgs (args : List String) : List String :=
  (args.map removeQuotes).filter fun s => s != "--"

/-- `separate_kv`: the `key=value` arguments, and what is left over. -/
def separateKv : List String → List String × List String
  | [] => ([], [])
  | arg :: args =>
    let s := removeQuotes arg
    if s.startsWith "--" then ([], extraArgs (arg :: args))
    else
      let rest := separateKv args
      (s :: rest.1, rest.2)

/-! ### Modules -/

/-- A shared object: its instance parameters, its module parameters, and what the variables
hold when it is opened. -/
structure ModuleFile where
  ip : List (String × ItemType)
  mp : List (String × ItemType)
  init : Vars

/-- A loaded module: `iparms`, and what the variables hold now. -/
structure Loaded where
  file : ModuleFile
  iparms : List String
  vars : Vars

/-- The default of a scalar as an argument, printed to a buffer of 100 bytes. -/
def defaultArg (name : String) (itemType : Char) (v : ItemValue) : Option String :=
  match itemType, v with
  | 'i', .num n | 'u', .num n | 'l', .num n => some (cut (name ++ "=" ++ toString n))
  | 's', .str s => some (cut (name ++ "=\"" ++ s ++ "\""))
  | _, _ => none
where
  /-- What `snprintf` leaves in the buffer. -/
  cut (s : String) : String := String.ofList (s.toList.take 99)

/-- `record_instparms`: the array that is kept in `iparms`, and the one that is printed to
the log. The array is kept before the defaults are added to it; arrays have none. -/
def recordInstparms (f : ModuleFile) : List String × List String :=
  let iparm : List String := []
  let kept := iparm
  let iparm := iparm ++ f.ip.filterMap fun p =>
    match p.2 with
    | .scalar c => defaultArg p.1 c (f.init (p.1, 0))
    | .array _ _ => none
    | .corrupt => none
  (kept, iparm)

/-- `do_load_cmd`; `main` is what `rtapi_app_main` writes to the variables. -/
def ModuleFile.load (f : ModuleFile) (args : List String) (main : Writes) : Option Loaded :=
  let r := doModuleArgs f.mp args
  if r.2 then
    some
      { file := f, iparms := (recordInstparms f).1
        vars := applyAll (applyAll f.init r.1) main }
  else none

/-- A newinst command: its arguments, and what the constructor, and the component until the
next command, write to the variables. -/
structure NewinstCmd where
  args : List String
  ctor : Writes

/-- `do_newinst_cmd`: the variables as the constructor sees them, if it is called, and the
module after the command. -/
def Loaded.newinst (l : Loaded) (c : NewinstCmd) : Option Vars × Loaded :=
  -- set the default instance parameters which were recorded
  let d := doModuleArgs l.file.ip l.iparms
  let l := { l with vars := applyAll l.vars d.1 }
  if d.2 then
    -- set the instance parameters
    let r := doModuleArgs l.file.ip (separateKv c.args).1
    let l := { l with vars := applyAll l.vars r.1 }
    if r.2 then (some l.vars, { l with vars := applyAll l.vars c.ctor })
    else (none, l)
  else (none, l)

/-- The module after a sequence of newinst commands. -/
def Loaded.after (l : Loaded) (cmds : List NewinstCmd) : Loaded :=
  cmds.foldl (fun l c => (l.newinst c).2) l

/-! ### What the constructor sees -/

/-- The writes of the `key=value` arguments of a newinst command. -/
def ModuleFile.kvWrites (f : ModuleFile) (c : NewinstCmd) : Writes × Bool :=
  doModuleArgs f.ip (separateKv c.args).1

/-- All writes of a newinst command. -/
def ModuleFile.newinstWrites (f : ModuleFile) (c : NewinstCmd) : Writes :=
  (f.kvWrites c).1 ++ if (f.kvWrites c).2 then c.ctor else []

/-- All writes of loading a module. -/
def ModuleFile.loadWrites (f : ModuleFile) (args : List String) (main : Writes) : Writes :=
  (doModuleArgs f.mp args).1 ++ main

/-- What the constructor is meant to see: the defaults, overridden by the arguments of this
command. -/
def ModuleFile.promised (f : ModuleFile) (c : NewinstCmd) : Vars :=
  applyAll f.init (f.kvWrites c).1

section Isolation

variable {f : ModuleFile} {l : Loaded} {args : List String} {main : Writes}

/-- A loaded module has no recorded defaults. -/
lemma load_eq (hl : f.load args main = some l) :
    l = { file := f, iparms := [], vars := applyAll f.init (f.loadWrites args main) } := by
  rw [ModuleFile.load] at hl
  split_ifs at hl
  rw [← Option.some.inj hl, ModuleFile.loadWrites, applyAll_append]
  rfl

/-- A newinst command writes its own arguments, and nothing before them. -/
lemma newinst_eq (h : l.iparms = []) (c : NewinstCmd) : l.newinst c =
    (if (l.file.kvWrites c).2 then some (applyAll l.vars (l.file.kvWrites c).1) else none,
      { l with vars := applyAll l.vars (l.file.newinstWrites c) }) := by
  have hreset : doModuleArgs l.file.ip l.iparms = ([], true) := by
    rw [h]
    rfl
  have hkv : doModuleArgs l.file.ip (separateKv c.args).1 = l.file.kvWrites c := rfl
  simp only [Loaded.newinst, hreset, applyAll_nil, if_true, ModuleFile.newinstWrites, hkv]
  split_ifs
  · rw [applyAll_append]
  · rw [List.append_nil]

/-- A sequence of newinst commands leaves what was last written. -/
lemma after_eq (h : l.iparms = []) (cmds : List NewinstCmd) :
    l.after cmds = { l with vars := applyAll l.vars (cmds.flatMap l.file.newinstWrites) } := by
  induction cmds generalizing l with
  | nil => rfl
  | cons c cmds ih =>
    have hcons : l.after (c :: cmds) = (l.newinst c).2.after cmds := rfl
    have hstep : (l.newinst c).2 = { l with vars := applyAll l.vars (l.file.newinstWrites c) } := by
      rw [newinst_eq h]
    rw [hcons, hstep, ih, List.flatMap_cons, applyAll_append]
    exact h

/-- What the constructor sees: the variables as they were, overridden by the arguments. -/
lemma newinst_visible (hl : f.load args main = some l) {cmds : List NewinstCmd} {c : NewinstCmd}
    {vars : Vars} (hc : ((l.after cmds).newinst c).1 = some vars) :
    vars = applyAll (l.after cmds).vars (f.kvWrites c).1 := by
  obtain rfl := load_eq hl
  rw [after_eq rfl, newinst_eq rfl] at hc
  rw [after_eq rfl]
  split_ifs at hc
  exact (Option.some.inj hc).symm

/-- The defaults are never restored: the constructor of a newinst command sees **the defaults
overridden by its arguments** exactly if every variable and element that these do not set was
last written, by the loading of the module, by an earlier newinst command, also one that
failed, or by a constructor, with its default, or never. Two sequences of earlier commands
give the same values exactly if they left the same in those variables. -/
theorem newinst_isolation (hl : f.load args main = some l) (cmds : List NewinstCmd)
    (c : NewinstCmd) (vars : Vars) (hc : ((l.after cmds).newinst c).1 = some vars) :
    (vars = f.promised c ↔ ∀ x, x ∉ (f.kvWrites c).1.map Prod.fst → ∀ v,
      Updates.lastAt (f.loadWrites args main ++ cmds.flatMap f.newinstWrites) x = some v →
        v = f.init x) ∧
    ∀ cmds' vars', ((l.after cmds').newinst c).1 = some vars' →
      (vars = vars' ↔ ∀ x, x ∉ (f.kvWrites c).1.map Prod.fst →
        (l.after cmds).vars x = (l.after cmds').vars x) := by
  have hvis := newinst_visible hl hc
  refine ⟨?_, fun cmds' vars' hc' => ?_⟩
  · rw [hvis, ModuleFile.promised, applyAll_eq_iff]
    refine forall_congr' fun x => imp_congr_right fun _ => ?_
    obtain rfl := load_eq hl
    rw [after_eq rfl, ← applyAll_append, applyAll_eq_self_at]
  · rw [hvis, newinst_visible hl hc', applyAll_eq_iff]

end Isolation

/-- A module with a number and an array of three strings. -/
def demoModule : ModuleFile :=
  { ip := [("count", .scalar 'i'), ("names", .array 3 's')], mp := [], init := fun x =>
      if x.1 = "count" then .num 2 else .str "" }

/-- What the variables of `demoModule` hold. -/
def demoVars (vars : Vars) : List ItemValue :=
  [vars ("count", 0), vars ("names", 0), vars ("names", 1), vars ("names", 2)]

/-- A number is set, and set again by the next command. -/
def setTwice : List NewinstCmd := [⟨["count=5"], []⟩]

/-- A command that sets the number and two of the three strings. -/
def lastCmd : NewinstCmd := ⟨["count=0x10", "names=a,b"], []⟩

/-- Nothing is left of earlier commands. -/
theorem newinst_isolation_demoModule : ∃ l vars, demoModule.load [] [] = some l ∧
    ((l.after setTwice).newinst lastCmd).1 = some vars ∧
    demoVars vars = [.num 16, .str "a", .str "b", .str ""] ∧
      vars = demoModule.promised lastCmd := by
  have hl : demoModule.load [] [] = some ⟨demoModule, [], demoModule.init⟩ := rfl
  have hv : (((⟨demoModule, [], demoModule.init⟩ : Loaded).after setTwice).newinst lastCmd).1.map
      demoVars = some [.num 16, .str "a", .str "b", .str ""] := by decide +kernel
  obtain ⟨vars, hvars, hshown⟩ := Option.map_eq_some_iff.mp hv
  refine ⟨_, vars, hl, hvars, hshown, (newinst_isolation hl _ _ _ hvars).1.2 fun x hx v hlast => ?_⟩
  have hkeys : (demoModule.kvWrites lastCmd).1.map Prod.fst
      = [("count", 0), ("names", 0), ("names", 1)] := by decide +kernel
  have hwrites : demoModule.loadWrites [] [] ++ setTwice.flatMap demoModule.newinstWrites
      = [(("count", 0), .num 5)] := by decide +kernel
  have hne : ("count", 0) ≠ x := by
    rintro rfl
    exact hx (hkeys ▸ (.head _))
  rw [hwrites] at hlast
  simp [Updates.lastAt, hne] at hlast

/-- A number that one command sets is still set for the next, which does not mention it. -/
theorem newinst_isolation_leftover : ¬ ∀ (f : ModuleFile) (l : Loaded) (args : List String)
    (main : Writes) (cmds : List NewinstCmd) (c : NewinstCmd) (vars : Vars),
    f.load args main = some l → ((l.after cmds).newinst c).1 = some vars →
      vars = f.promised c := by
  intro hall
  have hv : (((⟨demoModule, [], demoModule.init⟩ : Loaded).after setTwice).newinst ⟨[], []⟩).1.map
      demoVars = some [.num 5, .str "", .str "", .str ""] := by decide +kernel
  obtain ⟨vars, hvars, hshown⟩ := Option.map_eq_some_iff.mp hv
  have heq := hall demoModule _ [] [] setTwice ⟨[], []⟩ vars rfl hvars
  rw [heq] at hshown
  exact absurd hshown (by decide)

end MachinekitHal
