import MachinekitHal.Basic

/-!
`halcmd.c`: the dispatch of a command by `parse_cmd1`.

* `halcmdCommands`: the table; `bsearch` in it, sorted, is a lookup by name.
* `HalcmdState`: the calls made so far, the messages, and the state the handlers work on.
* `parseCmd1`: the function; `HalcmdCommand.switch` is its `switch` over the arity.
* `Dispatched`: what a command line should do.
* `parseCmd1_known`: a known command does it.
* `command_dispatch`: a line does it exactly if it is not an unknown word with two more tokens.
-/

namespace MachinekitHal

/-! ### The table -/

/-- The handlers of the table. -/
inductive HalcmdFunc where
  | doAddfCmd | doDelfCmd | doDelsigCmd | doEchoCmd | doDelthreadCmd | doGetpCmd | doGetsCmd
  | doPtypeCmd | doStypeCmd | doHelpCmd | doLinkppCmd | doLinkpsCmd | doLinkspCmd | doListCmd
  | doLoadrtCmd | doLoadusrCmd | doLockCmd | doLogCmd | doNetCmd | doNewsigCmd | doPingCmd
  | doSaveCmd | doSetexactCmd | doSetpCmd | doSetsCmd | doSeteCmd | doShowCmd | doSweepCmd
  | doShutdownCmd | doSleepCmd | doSourceCmd | doStartCmd | doStatusCmd | doStopCmd
  | doUnechoCmd | doUnlinkpCmd | doUnloadCmd | doUnloadrtCmd | doUnloadusrCmd | doUnlockCmd
  | doWaitusrCmd | doNewthreadCmd | doNewgCmd | doDelgCmd | doNewmCmd | doDelmCmd | doSetrmbCmd
  | doSetwmbCmd | doClearRmbCmd | doClearWmbCmd | doNewringCmd | doDelringCmd | doRingdumpCmd
  | doRingflushCmd | doRingwriteCmd | doNewcompCmd | doNewpinCmd | doReadyCmd | doWaitboundCmd
  | doWaitexistsCmd | doWaitunboundCmd | doNewinstCmd | doDelinstCmd | doCallfuncCmd
  | doAutoloadCmd
  deriving DecidableEq

/-- `A_ZERO`. -/
def aZero : ℕ := 0

/-- `A_ONE`. -/
def aOne : ℕ := 1

/-- `A_TWO`. -/
def aTwo : ℕ := 2

/-- `A_THREE`. -/
def aThree : ℕ := 3

/-- `A_PLUS`: adds an array of arguments to the prototype. -/
def aPlus : ℕ := 0x100

/-- `A_REMOVE_ARROWS`. -/
def aRemoveArrows : ℕ := 0x200

/-- `A_OPTIONAL`: arguments may be NULL. -/
def aOptional : ℕ := 0x400

/-- `A_TILDE`: tilde-expand all arguments. -/
def aTilde : ℕ := 0x800

/-- `struct halcmd_command`. -/
structure HalcmdCommand where
  name : String
  func : HalcmdFunc
  type : ℕ
  deriving DecidableEq

/-- `halcmd_commands`. -/
def halcmdCommands : List HalcmdCommand :=
  [⟨"addf", .doAddfCmd, aTwo ||| aPlus⟩, ⟨"delf", .doDelfCmd, aTwo ||| aOptional⟩,
   ⟨"delsig", .doDelsigCmd, aOne⟩, ⟨"echo", .doEchoCmd, aZero⟩,
   ⟨"delthread", .doDelthreadCmd, aOne⟩, ⟨"getp", .doGetpCmd, aOne⟩, ⟨"gets", .doGetsCmd, aOne⟩,
   ⟨"ptype", .doPtypeCmd, aOne⟩, ⟨"stype", .doStypeCmd, aOne⟩,
   ⟨"help", .doHelpCmd, aOne ||| aOptional⟩, ⟨"linkpp", .doLinkppCmd, aTwo ||| aRemoveArrows⟩,
   ⟨"linkps", .doLinkpsCmd, aTwo ||| aRemoveArrows⟩,
   ⟨"linksp", .doLinkspCmd, aTwo ||| aRemoveArrows⟩, ⟨"list", .doListCmd, aOne ||| aPlus⟩,
   ⟨"loadrt", .doLoadrtCmd, aOne ||| aPlus⟩, ⟨"loadusr", .doLoadusrCmd, aPlus ||| aTilde⟩,
   ⟨"lock", .doLockCmd, aOne ||| aOptional⟩, ⟨"log", .doLogCmd, aTwo ||| aOptional⟩,
   ⟨"net", .doNetCmd, aOne ||| aPlus ||| aRemoveArrows⟩, ⟨"newsig", .doNewsigCmd, aTwo⟩,
   ⟨"ping", .doPingCmd, aZero⟩, ⟨"save", .doSaveCmd, aTwo ||| aOptional ||| aTilde⟩,
   ⟨"setexact_for_test_suite_only", .doSetexactCmd, aZero⟩, ⟨"setp", .doSetpCmd, aTwo⟩,
   ⟨"sets", .doSetsCmd, aTwo⟩, ⟨"sete", .doSeteCmd, aTwo⟩,
   ⟨"show", .doShowCmd, aOne ||| aOptional ||| aPlus⟩, ⟨"sweep", .doSweepCmd, aOne ||| aOptional⟩,
   ⟨"shutdown", .doShutdownCmd, aZero⟩, ⟨"sleep", .doSleepCmd, aOne⟩,
   ⟨"source", .doSourceCmd, aOne ||| aTilde⟩, ⟨"start", .doStartCmd, aZero⟩,
   ⟨"status", .doStatusCmd, aOne ||| aOptional⟩, ⟨"stop", .doStopCmd, aZero⟩,
   ⟨"unecho", .doUnechoCmd, aZero⟩, ⟨"unlinkp", .doUnlinkpCmd, aOne⟩,
   ⟨"unload", .doUnloadCmd, aOne⟩, ⟨"unloadrt", .doUnloadrtCmd, aOne⟩,
   ⟨"unloadusr", .doUnloadusrCmd, aOne⟩, ⟨"unlock", .doUnlockCmd, aOne ||| aOptional⟩,
   ⟨"waitusr", .doWaitusrCmd, aTwo ||| aOptional⟩, ⟨"newthread", .doNewthreadCmd, aOne ||| aPlus⟩,
   ⟨"newg", .doNewgCmd, aOne ||| aPlus⟩, ⟨"delg", .doDelgCmd, aOne⟩,
   ⟨"newm", .doNewmCmd, aTwo ||| aOptional ||| aPlus⟩, ⟨"delm", .doDelmCmd, aTwo⟩,
   ⟨"setrmb", .doSetrmbCmd, aOne⟩, ⟨"setwmb", .doSetwmbCmd, aOne⟩,
   ⟨"clearrmb", .doClearRmbCmd, aOne⟩, ⟨"clearwmb", .doClearWmbCmd, aOne⟩,
   ⟨"newring", .doNewringCmd, aTwo ||| aPlus⟩, ⟨"delring", .doDelringCmd, aOne⟩,
   ⟨"ringdump", .doRingdumpCmd, aOne⟩, ⟨"ringflush", .doRingflushCmd, aOne⟩,
   ⟨"ringwrite", .doRingwriteCmd, aOne ||| aOptional ||| aPlus⟩,
   ⟨"newcomp", .doNewcompCmd, aOne ||| aPlus⟩, ⟨"newpin", .doNewpinCmd, aThree ||| aPlus⟩,
   ⟨"ready", .doReadyCmd, aOne ||| aOptional⟩, ⟨"waitbound", .doWaitboundCmd, aOne ||| aOptional⟩,
   ⟨"waitexists", .doWaitexistsCmd, aOne⟩, ⟨"waitunbound", .doWaitunboundCmd, aOne ||| aOptional⟩,
   ⟨"newinst", .doNewinstCmd, aTwo ||| aPlus⟩, ⟨"delinst", .doDelinstCmd, aOne⟩,
   ⟨"call", .doCallfuncCmd, aOne ||| aPlus⟩, ⟨"autoload", .doAutoloadCmd, aOne ||| aOptional⟩]
/-- `bsearch` with `compare_command` in the sorted table. -/
def findCommand (name : String) : Option HalcmdCommand :=
  halcmdCommands.find? fun c => c.name == name

/-! ### The function -/

/-- A call of a handler: its `char *` arguments, NULL being `none`, and its `char **` argument
up to the end of the array, if it has one. -/
structure HalcmdCall where
  func : HalcmdFunc
  args : List (Option String)
  rest : Option (List String)
  deriving DecidableEq

/-- The messages of `parse_cmd1`. -/
inductive HalcmdError where
  /-- Unknown command '%s' -/
  | unknownCommand (name : String)
  /-- %s requires %s%d arguments, %d given; the flag says whether `at least` -/
  | tooFew (name : String) (atLeast : Bool) (nargs given : ℕ)
  /-- %s requires %s%d arguments, %d given; the flag says whether `at most` -/
  | tooMany (name : String) (atMost : Bool) (nargs given : ℕ)
  /-- BUG: unchandled case: command=%s type=0x%x -/
  | bug (name : String) (type : ℕ)
  deriving DecidableEq

/-- What `parse_cmd1` works on; `env` is what the handlers do. -/
structure HalcmdState (σ : Type) where
  echoMode : Bool
  calls : List HalcmdCall
  errors : List HalcmdError
  env : σ

section Parse

variable {σ : Type} (handler : HalcmdCall → σ → ℤ × σ) (tildeExpansion : String → String)

/-- The call of a handler. -/
def HalcmdState.call (s : HalcmdState σ) (c : HalcmdCall) : ℤ × HalcmdState σ :=
  ((handler c s.env).1, { s with calls := s.calls ++ [c], env := (handler c s.env).2 })

/-- `halcmd_error`, and `-EINVAL`. -/
def HalcmdState.fail (s : HalcmdState σ) (e : HalcmdError) : ℤ × HalcmdState σ :=
  (-Errno.EINVAL.code, { s with errors := s.errors ++ [e] })

/-- `count_args`; the NULL at the end of the array is the end of the list. -/
def countArgs (argv : List String) : ℕ := (argv.takeWhile (· ≠ "")).length

/-- Whether a token is an arrow. -/
def isArrow (token : String) : Bool := token.toList.head? = some '<' ∨ token.toList.head? = some '='

namespace HalcmdCommand

/-- `ARG(i)`. -/
def arg (argc : ℕ) (argv : List String) (i : ℕ) : Option String :=
  if i < argc then argv[i]? else none

/-- `REST(i)`, as far as a handler reads it. -/
def rest (argc : ℕ) (argv : List String) (i : ℕ) : List String := (argv.take argc).drop i

variable (c : HalcmdCommand)

/-- `type & 0xff`. -/
def nargs : ℕ := c.type &&& 0xff

/-- `type & A_OPTIONAL`. -/
def isOptional : Bool := c.type &&& aOptional ≠ 0

/-- `type & A_PLUS`. -/
def isPlus : Bool := c.type &&& aPlus ≠ 0

/-- `switch (nargs | is_plus)`. -/
def switch (argc : ℕ) (argv : List String) (s : HalcmdState σ) : ℤ × HalcmdState σ :=
  match c.nargs ||| (c.type &&& aPlus) with
  | 0 => s.call handler ⟨c.func, [], none⟩
  | 0x100 => s.call handler ⟨c.func, [], some (rest argc argv 1)⟩
  | 1 => s.call handler ⟨c.func, [arg argc argv 1], none⟩
  | 0x101 => s.call handler ⟨c.func, [arg argc argv 1], some (rest argc argv 2)⟩
  | 2 => s.call handler ⟨c.func, [arg argc argv 1, arg argc argv 2], none⟩
  | 0x102 =>
    s.call handler ⟨c.func, [arg argc argv 1, arg argc argv 2], some (rest argc argv 3)⟩
  | 3 => s.call handler ⟨c.func, [arg argc argv 1, arg argc argv 2, arg argc argv 3], none⟩
  | 0x103 =>
    s.call handler
      ⟨c.func, [arg argc argv 1, arg argc argv 2, arg argc argv 3], some (rest argc argv 4)⟩
  | _ => s.fail (.bug c.name c.type)

end HalcmdCommand

/-- `parse_cmd1`. -/
def parseCmd1 (argv : List String) (s : HalcmdState σ) : ℤ × HalcmdState σ :=
  let command := argv.head?.bind findCommand
  let argc := countArgs argv
  if argc = 0 then (0, s) else
  match command with
  | none =>
    -- special case: sig = newvalue
    match argv with
    | name :: eq :: value :: _ =>
      if argc = 3 ∧ eq ≠ "=" then
        s.call handler ⟨.doSetpCmd, [some name, some value], none⟩
      else s.fail (.unknownCommand name)
    | name :: _ => s.fail (.unknownCommand name)
    | [] => s.fail (.unknownCommand "")
  | some command =>
    let argv :=
      if command.type &&& aRemoveArrows ≠ 0 then (argv.take argc).filter fun t => !isArrow t
      else argv
    let argc := if command.type &&& aRemoveArrows ≠ 0 then argv.length else argc
    let posargs := argc - 1
    if posargs < command.nargs ∧ command.isOptional = false then
      s.fail (.tooFew command.name command.isPlus command.nargs posargs)
    else if command.nargs < posargs ∧ command.isPlus = false then
      s.fail (.tooMany command.name command.isOptional command.nargs posargs)
    else
      let argv :=
        if command.type &&& aTilde ≠ 0 then
          (argv.take argc).map tildeExpansion ++ argv.drop argc
        else argv
      let s := if command.name = "echo" then { s with echoMode := true } else s
      let s := if command.name = "unecho" then { s with echoMode := false } else s
      command.switch handler argc argv s

end Parse

/-! ### What a command line should do -/

/-- `echo` and `unecho` set the echo mode before their handler runs. -/
def HalcmdState.echoed {σ : Type} (s : HalcmdState σ) (name : String) : HalcmdState σ :=
  { s with
    echoMode := if name = "echo" then true else if name = "unecho" then false else s.echoMode }

namespace HalcmdCommand

variable (c : HalcmdCommand)

/-- The arguments a command is given: the tokens after it, without arrows and expanded if the
entry says so. -/
def given (tildeExpansion : String → String) (args : List String) : List String :=
  let args := if c.type &&& aRemoveArrows ≠ 0 then args.filter fun t => !isArrow t else args
  if c.type &&& aTilde ≠ 0 then args.map tildeExpansion else args

/-- The entry takes `n` arguments. -/
structure Takes (n : ℕ) : Prop where
  enough : c.nargs ≤ n ∨ c.isOptional = true
  notTooMany : n ≤ c.nargs ∨ c.isPlus = true

/-- The call of the handler with the arguments in the shape of the entry: missing ones are NULL,
and what is left is an array if the entry has one. -/
def callOn (args : List String) : HalcmdCall :=
  ⟨c.func, (List.range c.nargs).map fun i => args[i]?,
    if c.isPlus then some (args.drop c.nargs) else none⟩

end HalcmdCommand

section Spec

variable {σ : Type} (handler : HalcmdCall → σ → ℤ × σ) (tildeExpansion : String → String)

/-- What a command line should do: run the handler of its first token on the others if the entry
takes so many, set the pin or param of a line `name = value`, report everything else. -/
def Dispatched (argv : List String) (s : HalcmdState σ) (r : ℤ × HalcmdState σ) : Prop :=
  match argv.takeWhile (· ≠ "") with
  | [] => r = (0, s)
  | name :: args =>
    match findCommand name with
    | some c =>
      let given := c.given tildeExpansion args
      (c.Takes given.length → r = (s.echoed name).call handler (c.callOn given)) ∧
        (¬ c.Takes given.length → ∃ e, r = s.fail e)
    | none =>
      (∀ value, args = ["=", value] →
        r = s.call handler ⟨.doSetpCmd, [some name, some value], none⟩) ∧
        ((∀ value, args ≠ ["=", value]) → r = s.fail (.unknownCommand name))

end Spec

variable {σ : Type} {handler : HalcmdCall → σ → ℤ × σ} {tildeExpansion : String → String}

/-! ### A known command -/

lemma HalcmdCommand.arg_eq (argc : ℕ) (argv : List String) (i : ℕ) :
    arg argc argv i = (argv.take argc)[i]? := by
  rw [arg, List.getElem?_take]

/-- The arity of every entry is one of the cases of the `switch`. -/
lemma switch_value : ∀ c ∈ halcmdCommands, c.nargs ≤ 3 ∧
    (c.nargs ||| (c.type &&& aPlus)) = c.nargs + if c.isPlus then 0x100 else 0 := by
  decide

/-- **The `switch`** calls the handler with the arguments in the shape of the entry. -/
lemma switch_eq {c : HalcmdCommand} (hc : c ∈ halcmdCommands) {argv : List String} {argc : ℕ}
    {name : String} {args : List String} (htake : argv.take argc = name :: args)
    (s : HalcmdState σ) : c.switch handler argc argv s = s.call handler (c.callOn args) := by
  obtain ⟨hn, hval⟩ := switch_value c hc
  have harg : ∀ i, HalcmdCommand.arg argc argv (i + 1) = args[i]? := by
    intro i
    rw [HalcmdCommand.arg_eq, htake, List.getElem?_cons_succ]
  have hrest : ∀ i, HalcmdCommand.rest argc argv (i + 1) = args.drop i := by
    intro i
    rw [HalcmdCommand.rest, htake, List.drop_succ_cons]
  rw [HalcmdCommand.switch, hval, HalcmdCommand.callOn]
  generalize c.nargs = n at hn
  cases c.isPlus <;> interval_cases n <;> simp [harg, hrest, List.range_succ]

lemma findCommand_mem {name : String} {c : HalcmdCommand} (hc : findCommand name = some c) :
    c ∈ halcmdCommands ∧ c.name = name := by
  have hp := List.find?_some hc
  exact ⟨List.mem_of_find?_eq_some hc, by simpa using hp⟩

/-- No command is taken for an arrow. -/
lemma isArrow_command : ∀ c ∈ halcmdCommands, isArrow c.name = false := by decide

lemma countArgs_eq (argv : List String) :
    argv.take (countArgs argv) = argv.takeWhile (· ≠ "") := by
  exact (List.prefix_iff_eq_take.1 (List.takeWhile_prefix _)).symm

/-- What the tests of the number of arguments let pass. -/
lemma takes_iff (c : HalcmdCommand) (n : ℕ) : c.Takes n ↔
    ¬ (n < c.nargs ∧ c.isOptional = false) ∧ ¬ (c.nargs < n ∧ c.isPlus = false) := by
  constructor
  · rintro ⟨henough, hmany⟩
    refine ⟨fun ⟨hlt, ho⟩ => ?_, fun ⟨hlt, hp⟩ => ?_⟩
    · exact henough.elim (fun hle => by omega) fun ht => by simp [ho] at ht
    · exact hmany.elim (fun hle => by omega) fun ht => by simp [hp] at ht
  · rintro ⟨henough, hmany⟩
    refine ⟨?_, ?_⟩
    · by_cases hlt : n < c.nargs
      · exact .inr (by simpa [hlt] using henough)
      · exact .inl (by omega)
    · by_cases hlt : c.nargs < n
      · exact .inr (by simpa [hlt] using hmany)
      · exact .inl (by omega)

/-- **A known command** is dispatched as it should be. -/
lemma parseCmd1_known {argv args : List String} {name : String} {c : HalcmdCommand}
    (hargv : argv.takeWhile (· ≠ "") = name :: args) (hc : findCommand name = some c)
    (s : HalcmdState σ) :
    Dispatched handler tildeExpansion argv s (parseCmd1 handler tildeExpansion argv s) := by
  obtain ⟨hmem, hname⟩ := findCommand_mem hc
  have hcount : countArgs argv = args.length + 1 := by rw [countArgs, hargv, List.length_cons]
  have htake : argv.take (args.length + 1) = name :: args := by
    rw [← hcount, countArgs_eq, hargv]
  have hhead : argv.head?.bind findCommand = some c := by
    cases argv with
    | nil => simp at htake
    | cons a argv =>
      obtain ⟨rfl, -⟩ := List.cons.inj htake
      exact hc
  -- the arguments without arrows, and then expanded
  set args₁ := if c.type &&& aRemoveArrows ≠ 0 then args.filter fun t => !isArrow t else args
    with hargs₁
  set argv₁ := if c.type &&& aRemoveArrows ≠ 0 then
    (argv.take (args.length + 1)).filter fun t => !isArrow t else argv with hargv₁
  have hkept : (name :: args).filter (fun t => !isArrow t)
      = name :: args.filter fun t => !isArrow t := by
    rw [List.filter_cons_of_pos (by simp [← hname, isArrow_command c hmem])]
  have hargc₁ : (if c.type &&& aRemoveArrows ≠ 0 then argv₁.length else args.length + 1)
      = args₁.length + 1 := by
    rw [hargv₁, hargs₁]
    split_ifs
    · rw [htake, hkept, List.length_cons]
    · rfl
  have htake₁ : argv₁.take (args₁.length + 1) = name :: args₁ := by
    rw [hargv₁, hargs₁]
    split_ifs
    · rw [htake, hkept]
      exact List.take_of_length_le (by simp)
    · exact htake
  set given := c.given tildeExpansion args with hgiven
  have hlen : given.length = args₁.length := by
    rw [hgiven, HalcmdCommand.given, ← hargs₁]
    split_ifs
    · exact List.length_map _
    · rfl
  have htake₂ : ∃ name', (if c.type &&& aTilde ≠ 0 then
      (argv₁.take (args₁.length + 1)).map tildeExpansion ++ argv₁.drop (args₁.length + 1)
      else argv₁).take (args₁.length + 1) = name' :: given := by
    rw [hgiven, HalcmdCommand.given, ← hargs₁]
    by_cases ht : c.type &&& aTilde ≠ 0
    · refine ⟨tildeExpansion name, ?_⟩
      simp only [if_pos ht, htake₁, List.map_cons]
      exact List.take_left' (by simp)
    · exact ⟨name, by simp only [if_neg ht, htake₁]⟩
  obtain ⟨name', htake₂⟩ := htake₂
  have hecho : (if c.name = "unecho" then
      { (if c.name = "echo" then { s with echoMode := true } else s) with echoMode := false }
      else if c.name = "echo" then { s with echoMode := true } else s) = s.echoed name := by
    rw [HalcmdState.echoed, hname]
    split_ifs with hu he
    · exact absurd (hu.symm.trans he) (by decide)
    · rfl
    · rfl
    · rfl
  rw [Dispatched, hargv]
  simp only [hc, parseCmd1, hhead, hcount, Nat.add_eq_zero_iff, one_ne_zero, and_false, if_false]
  rw [← hargv₁, hargc₁, Nat.add_sub_cancel, hecho, switch_eq hmem htake₂, ← hgiven, hlen,
    takes_iff]
  constructor
  · rintro ⟨hfew, hmany⟩
    rw [if_neg hfew, if_neg hmany]
  · intro hno
    by_cases hfew : args₁.length < c.nargs ∧ c.isOptional = false
    · exact ⟨_, if_pos hfew⟩
    · rw [if_neg hfew]
      exact ⟨_, if_pos (by simpa [hfew] using hno)⟩

/-! ### The result -/

/-- A call and a message are different outcomes. -/
lemma HalcmdState.call_ne_fail (s : HalcmdState σ) (c : HalcmdCall) (e : HalcmdError) :
    s.call handler c ≠ s.fail e := by
  intro h
  have hcalls : s.calls ++ [c] = s.calls := congrArg (fun r => r.2.calls) h
  simp at hcalls

/-- An unknown word is reported if there are not two more tokens. -/
lemma parseCmd1_unknown {name : String} {l : List String} (hc : findCommand name = none)
    (hcount : countArgs (name :: l) ≠ 3) (hpos : countArgs (name :: l) ≠ 0) (s : HalcmdState σ) :
    parseCmd1 handler tildeExpansion (name :: l) s = s.fail (.unknownCommand name) := by
  simp only [parseCmd1, List.head?_cons, Option.bind_some, hc, if_neg hpos]
  rcases l with _ | ⟨a, _ | ⟨b, l⟩⟩
  · rfl
  · rfl
  · exact if_neg fun h => hcount h.1

/-- An unknown word with two more tokens is set, if the first of them is not `=`. -/
lemma parseCmd1_shorthand {name a b : String} {l : List String} (hc : findCommand name = none)
    (hcount : countArgs (name :: a :: b :: l) = 3) (s : HalcmdState σ) :
    parseCmd1 handler tildeExpansion (name :: a :: b :: l) s =
      if a ≠ "=" then s.call handler ⟨.doSetpCmd, [some name, some b], none⟩
      else s.fail (.unknownCommand name) := by
  simp [parseCmd1, hc, hcount]

/-- **Command dispatch.** A line is dispatched as it should be exactly if it does not consist of
an unknown word and two more tokens: there the test for `=` is the wrong way round. -/
theorem command_dispatch (handler : HalcmdCall → σ → ℤ × σ) (tildeExpansion : String → String)
    (argv : List String) (s : HalcmdState σ) :
    Dispatched handler tildeExpansion argv s (parseCmd1 handler tildeExpansion argv s) ↔
      ∀ name a b, argv.takeWhile (· ≠ "") = [name, a, b] → (findCommand name).isSome = true := by
  cases hargv : argv.takeWhile (· ≠ "") with
  | nil =>
      have hcount : countArgs argv = 0 := by rw [countArgs, hargv, List.length_nil]
      refine iff_of_true ?_ (by simp)
      rw [Dispatched, hargv]
      simp [parseCmd1, hcount]
  | cons name args =>
  cases hc : findCommand name with
  | some c =>
      refine iff_of_true (parseCmd1_known hargv hc s) ?_
      rintro name' a b h
      rw [← (List.cons.inj h).1, hc]
      rfl
  | none =>
  have hcount : countArgs argv = args.length + 1 := by rw [countArgs, hargv, List.length_cons]
  obtain ⟨tail, rfl⟩ : ∃ tail, argv = name :: (args ++ tail) :=
    ⟨argv.dropWhile (· ≠ ""), by
      rw [← List.cons_append, ← hargv, List.takeWhile_append_dropWhile]⟩
  rw [Dispatched, hargv]
  simp only [hc]
  by_cases hlen : args.length = 2
  · -- three tokens: the line is set if it should not be, and the other way round
    obtain ⟨a, b, rfl⟩ := List.length_eq_two.1 hlen
    rw [show name :: ([a, b] ++ tail) = name :: a :: b :: tail from rfl] at hcount ⊢
    refine iff_of_false ?_ fun hall => by simpa [hc] using hall name a b rfl
    rintro ⟨hset, hunknown⟩
    rw [parseCmd1_shorthand hc hcount] at hset hunknown
    by_cases ha : a = "="
    · have hcall := hset b (by rw [ha])
      rw [if_neg (not_not.2 ha)] at hcall
      exact HalcmdState.call_ne_fail s _ _ hcall.symm
    · have hfail := hunknown (by simp [ha])
      rw [if_pos ha] at hfail
      exact HalcmdState.call_ne_fail s _ _ hfail
  · rw [parseCmd1_unknown hc (by omega) (by omega)]
    refine iff_of_true ⟨?_, fun _ => rfl⟩ ?_
    · rintro value rfl
      exact absurd rfl hlen
    · rintro name' a b h
      rw [(List.cons.inj h).2] at hlen
      exact absurd rfl hlen

/-- No handler does anything. -/
def noHandler (_ : HalcmdCall) (s : Unit) : ℤ × Unit := (0, s)

/-- `sig = 1` is not known, and `sig to 1` sets `sig`. -/
theorem command_dispatch_fails :
    ¬ Dispatched noHandler id ["sig", "=", "1"] ⟨false, [], [], ()⟩
        (parseCmd1 noHandler id ["sig", "=", "1"] ⟨false, [], [], ()⟩) ∧
    ¬ Dispatched noHandler id ["sig", "to", "1"] ⟨false, [], [], ()⟩
        (parseCmd1 noHandler id ["sig", "to", "1"] ⟨false, [], [], ()⟩) := by
  have hc : findCommand "sig" = none := by decide
  refine ⟨?_, ?_⟩
  · rw [Dispatched, show ["sig", "=", "1"].takeWhile (· ≠ "") = ["sig", "=", "1"] by decide]
    simp only [hc]
    rintro ⟨hset, -⟩
    have hcalls := congrArg (fun r => r.2.calls) (hset "1" rfl)
    rw [parseCmd1_shorthand hc (by decide)] at hcalls
    simp [HalcmdState.call, HalcmdState.fail] at hcalls
  · rw [Dispatched, show ["sig", "to", "1"].takeWhile (· ≠ "") = ["sig", "to", "1"] by decide]
    simp only [hc]
    rintro ⟨-, hunknown⟩
    have hcalls := congrArg (fun r => r.2.calls) (hunknown (by simp))
    rw [parseCmd1_shorthand hc (by decide)] at hcalls
    simp [HalcmdState.call, HalcmdState.fail] at hcalls

end MachinekitHal
