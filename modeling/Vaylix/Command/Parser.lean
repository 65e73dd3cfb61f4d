import Vaylix.Command.Lexer
import Vaylix.Engine.Evaluate
import Mathlib.Algebra.Group.Nat.Defs
import Mathlib.Data.List.Perm.Basic
import Mathlib.Data.List.Count

/-!
# Parsing `SET`

Each option clause changes the options collected so far, if they do not exclude it. The
conflict checks stand in different branches and helpers; together they accept a list of
clauses exactly if no two of its clauses are of one group, and then their order does not
matter.
-/

namespace Vaylix

namespace Token

def text : Token → String
  | word value => value
  | quotedString value => value

def lower (token : Token) : String := String.ofList (token.text.toList.map Char.toLower)

end Token

namespace Parser

def setUsage : String :=
  "set <key> <value> [nx|xx] [if version <version>] [ex <seconds>|px <millis>] [keepttl] [get]"

/-- `str::parse::<u64>`: digits, perhaps behind a plus sign. -/
def u64OfText (text : String) : Option Nat :=
  let digits := match text.toList with
    | '+' :: rest => rest
    | chars => chars
  if digits ≠ [] ∧ digits.all Char.isDigit then
    let value := digits.foldl (fun value ch => value * 10 + (ch.toNat - '0'.toNat)) 0
    if value < 2 ^ 64 then some value else none
  else none

def parseU64 (field : String) (token : Token) : Except CommandError Nat :=
  match u64OfText token.text with
  | some value => .ok value
  | none => .error (.invalidInteger field token.text)

/-- `parse_following_u64` with the tokens behind the keyword. -/
def parseFollowingU64 (rest : List Token) (field usage : String) : Except CommandError Nat :=
  match rest with
  | token :: _ => parseU64 field token
  | [] => .error (.invalidArity usage)

def setCondition (command : String) (options : SetOptions) (condition : SetCondition) :
    Except CommandError SetOptions :=
  if options.condition.isSome then
    .error (.conflictingOptions command "only one of NX or XX may be specified")
  else if options.ifVersion.isSome then
    .error (.conflictingOptions command "NX or XX cannot be combined with IF VERSION")
  else .ok { options with condition := some condition }

def setExpiration (command : String) (options : SetOptions) (expiration : Expiration) :
    Except CommandError SetOptions :=
  if options.keepTtl then
    .error (.conflictingOptions command "EX or PX cannot be combined with KEEPTTL")
  else if options.expiration.isSome then
    .error (.conflictingOptions command "only one of EX or PX may be specified")
  else .ok { options with expiration := some expiration }

/-- The branch `if` of the loop; `token` is the keyword and `rest` what follows it. -/
def parseIfVersion (options : SetOptions) (token : Token) (rest : List Token) :
    Except CommandError SetOptions :=
  if ¬ (rest.head?.any fun next => next.lower = "version") then
    .error (.invalidOption "set" token.text)
  else if options.condition.isSome then
    .error (.conflictingOptions "set" "IF VERSION cannot be combined with NX or XX")
  else do
    let version ← parseFollowingU64 rest.tail "version" setUsage
    if options.ifVersion.isSome then
      .error (.conflictingOptions "set" "IF VERSION can only be specified once")
    else .ok { options with ifVersion := some version }

def parseKeepTtl (options : SetOptions) : Except CommandError SetOptions :=
  if options.keepTtl then
    .error (.conflictingOptions "set" "KEEPTTL can only be specified once")
  else if options.expiration.isSome then
    .error (.conflictingOptions "set" "KEEPTTL cannot be combined with EX or PX")
  else .ok { options with keepTtl := true }

def parseGet (options : SetOptions) : Except CommandError SetOptions :=
  if options.returnPrevious then
    .error (.conflictingOptions "set" "GET can only be specified once")
  else .ok { options with returnPrevious := true }

/-- One turn of the loop of `parse_set`: the options, and how many tokens behind `token` it
takes. -/
def parseSetClause (options : SetOptions) (token : Token) (rest : List Token) :
    Except CommandError (SetOptions × Nat) :=
  match token.lower with
  | "nx" => (setCondition "set" options .nx).map (·, 0)
  | "xx" => (setCondition "set" options .xx).map (·, 0)
  | "if" => (parseIfVersion options token rest).map (·, 2)
  | "ex" => do
    let seconds ← parseFollowingU64 rest "seconds" setUsage
    let options ← setExpiration "set" options (.seconds seconds)
    pure (options, 1)
  | "px" => do
    let millis ← parseFollowingU64 rest "milliseconds" setUsage
    let options ← setExpiration "set" options (.milliseconds millis)
    pure (options, 1)
  | "keepttl" => (parseKeepTtl options).map (·, 0)
  | "get" => (parseGet options).map (·, 0)
  | other => .error (.invalidOption "set" other)

def parseSetOptions (options : SetOptions) : List Token → Except CommandError SetOptions
  | [] => .ok options
  | token :: rest =>
    match parseSetClause options token rest with
    | .ok (after, used) => parseSetOptions after (rest.drop used)
    | .error err => .error err
termination_by tokens => tokens.length
decreasing_by
  rw [List.length_drop, List.length_cons]
  omega

def parseSet : List Token → Except CommandError Command
  | _ :: key :: value :: rest => do
    let options ← parseSetOptions {} rest
    pure (.set key.text (textBytes value.text) options)
  | _ => .error (.invalidArity setUsage)

/-! ### Clauses -/

inductive SetClause where
  | nx
  | xx
  | ifVersion (number : Token)
  | ex (number : Token)
  | px (number : Token)
  | keepTtl
  | get

inductive ClauseGroup where
  | condition
  | expiration
  | previous
deriving DecidableEq

namespace SetClause

def group : SetClause → ClauseGroup
  | nx | xx | ifVersion _ => .condition
  | ex _ | px _ | keepTtl => .expiration
  | get => .previous

def Numbered : SetClause → Prop
  | ifVersion number | ex number | px number => (u64OfText number.text).isSome
  | nx | xx | keepTtl | get => True

/-- The tokens of a clause, with keywords in any letter case. -/
inductive Spelled : SetClause → Token → List Token → Prop
  | nx {token} : token.lower = "nx" → Spelled .nx token []
  | xx {token} : token.lower = "xx" → Spelled .xx token []
  | ifVersion {token version} (number : Token) : token.lower = "if" → version.lower = "version" →
      Spelled (.ifVersion number) token [version, number]
  | ex {token} (number : Token) : token.lower = "ex" → Spelled (.ex number) token [number]
  | px {token} (number : Token) : token.lower = "px" → Spelled (.px number) token [number]
  | keepTtl {token} : token.lower = "keepttl" → Spelled .keepTtl token []
  | get {token} : token.lower = "get" → Spelled .get token []

def change : SetClause → Option (SetOptions → SetOptions)
  | nx => some fun options => { options with condition := some .nx }
  | xx => some fun options => { options with condition := some .xx }
  | ifVersion number =>
    (u64OfText number.text).map fun version options => { options with ifVersion := some version }
  | ex number => (u64OfText number.text).map fun seconds options =>
    { options with expiration := some (.seconds seconds) }
  | px number => (u64OfText number.text).map fun millis options =>
    { options with expiration := some (.milliseconds millis) }
  | keepTtl => some fun options => { options with keepTtl := true }
  | get => some fun options => { options with returnPrevious := true }

end SetClause

def taken (options : SetOptions) : ClauseGroup → Bool
  | .condition => options.condition.isSome || options.ifVersion.isSome
  | .expiration => options.keepTtl || options.expiration.isSome
  | .previous => options.returnPrevious

def addClause (options : SetOptions) (clause : SetClause) : Option SetOptions :=
  if taken options clause.group then none else clause.change.map (· options)

inductive AllSpelled : List SetClause → List Token → Prop
  | nil : AllSpelled [] []
  | cons {clause clauses token own rest} : SetClause.Spelled clause token own →
      AllSpelled clauses rest → AllSpelled (clause :: clauses) (token :: (own ++ rest))

section Clause

variable {options : SetOptions} {clause : SetClause} {token : Token} {own rest : List Token}

theorem toOption_setCondition {condition : SetCondition} :
    (setCondition "set" options condition).toOption =
      if taken options .condition then none
      else some { options with condition := some condition } := by
  unfold setCondition taken
  cases options.condition <;> cases options.ifVersion <;> rfl

theorem toOption_setExpiration {expiration : Expiration} :
    (setExpiration "set" options expiration).toOption =
      if taken options .expiration then none
      else some { options with expiration := some expiration } := by
  unfold setExpiration taken
  cases options.keepTtl <;> cases options.expiration <;> rfl

theorem toOption_parseKeepTtl :
    (parseKeepTtl options).toOption =
      if taken options .expiration then none else some { options with keepTtl := true } := by
  unfold parseKeepTtl taken
  cases options.keepTtl <;> cases options.expiration <;> rfl

theorem toOption_parseGet :
    (parseGet options).toOption =
      if taken options .previous then none else some { options with returnPrevious := true } := by
  unfold parseGet taken
  cases options.returnPrevious <;> rfl

theorem toOption_map {α β : Type} (result : Except CommandError α) (f : α → β) :
    (result.map f).toOption = result.toOption.map f := by
  cases result <;> rfl

theorem toOption_bind {α β : Type} (result : Except CommandError α)
    (next : α → Except CommandError β) :
    (result >>= next).toOption = result.toOption.bind fun value => (next value).toOption := by
  cases result <;> rfl

theorem toOption_parseFollowingU64 {number : Token} {field usage : String} :
    (parseFollowingU64 (number :: rest) field usage).toOption = u64OfText number.text := by
  rw [parseFollowingU64, parseU64]
  cases u64OfText number.text <;> rfl

theorem toOption_parseIfVersion {version number : Token} (keyword : version.lower = "version") :
    (parseIfVersion options token (version :: number :: rest)).toOption =
      if taken options .condition then none
      else (u64OfText number.text).map fun version =>
        { options with ifVersion := some version } := by
  have follows : ((version :: number :: rest).head?.any fun next => next.lower = "version") := by
    simp [keyword]
  rw [parseIfVersion, if_neg (not_not.mpr follows)]
  unfold taken
  cases options.condition with
  | some condition => rfl
  | none =>
    simp only [Option.isSome_none, Bool.false_eq_true, if_false, Bool.false_or, List.tail_cons,
      toOption_bind, toOption_parseFollowingU64]
    cases options.ifVersion <;> cases u64OfText number.text <;> rfl

/-- The branches `ex` and `px`, which read the number before they look for conflicts. -/
theorem toOption_expiration {number : Token} {field : String} {make : Nat → Expiration} :
    (do
      let value ← parseFollowingU64 (number :: rest) field setUsage
      let options ← setExpiration "set" options (make value)
      pure (options, 1)).toOption =
    (if taken options .expiration then none
      else (u64OfText number.text).map fun value =>
        { options with expiration := some (make value) }).map (·, 1) := by
  simp only [toOption_bind, toOption_parseFollowingU64, toOption_setExpiration]
  cases u64OfText number.text <;> split <;> rfl

theorem toOption_parseSetClause (spelled : clause.Spelled token own) :
    (parseSetClause options token (own ++ rest)).toOption =
      (addClause options clause).map (·, own.length) := by
  unfold parseSetClause
  cases spelled with
  | nx keyword | xx keyword =>
    simp only [keyword, toOption_map, toOption_setCondition]
    rfl
  | ifVersion number keyword version =>
    simp only [keyword, toOption_map, List.cons_append, toOption_parseIfVersion version, addClause,
      SetClause.change, Option.map_map]
    rfl
  | ex number keyword | px number keyword =>
    simp only [keyword, addClause, SetClause.change, Option.map_map]
    exact toOption_expiration
  | keepTtl keyword =>
    simp only [keyword, toOption_map, toOption_parseKeepTtl]
    rfl
  | get keyword =>
    simp only [keyword, toOption_map, toOption_parseGet]
    rfl

end Clause

theorem toOption_parseSetOptions {clauses : List SetClause} {tokens : List Token}
    (spelled : AllSpelled clauses tokens) (options : SetOptions) :
    (parseSetOptions options tokens).toOption = clauses.foldlM addClause options := by
  induction spelled generalizing options with
  | nil =>
    rw [parseSetOptions]
    rfl
  | @cons clause clauses token own rest first others ih =>
    have turn : (parseSetClause options token (own ++ rest)).toOption = _ :=
      toOption_parseSetClause first
    rw [parseSetOptions, List.foldlM_cons]
    cases added : addClause options clause with
    | none =>
      rw [added] at turn
      cases read : parseSetClause options token (own ++ rest) with
      | error err => rfl
      | ok result =>
        rw [read] at turn
        cases turn
    | some after =>
      rw [added] at turn
      cases read : parseSetClause options token (own ++ rest) with
      | error err =>
        rw [read] at turn
        cases turn
      | ok result =>
        rw [read] at turn
        obtain rfl := Option.some.inj turn
        dsimp only
        rw [List.drop_left]
        exact ih after

/-! ### Which lists of clauses are accepted -/

section Accepted

variable {options after : SetOptions} {clause : SetClause} {group other : ClauseGroup}
  {change later : SetOptions → SetOptions}

theorem isSome_change_iff : clause.change.isSome ↔ clause.Numbered := by
  cases clause <;> simp [SetClause.change, SetClause.Numbered]

/-- The changes that touch only the fields of a group, and take it. -/
inductive Touches : ClauseGroup → (SetOptions → SetOptions) → Prop
  | condition (c : Option SetCondition → Option SetCondition) (v : Option Nat → Option Nat)
      (full : ∀ old version, (c old).isSome || (v version).isSome) :
      Touches .condition fun options =>
        { options with condition := c options.condition, ifVersion := v options.ifVersion }
  | expiration (e : Option Expiration → Option Expiration) (k : Bool → Bool)
      (full : ∀ old keep, k keep || (e old).isSome) :
      Touches .expiration fun options =>
        { options with expiration := e options.expiration, keepTtl := k options.keepTtl }
  | previous : Touches .previous fun options => { options with returnPrevious := true }

theorem touches_change (changed : clause.change = some change) : Touches clause.group change := by
  cases clause with
  | nx =>
    cases changed
    exact .condition (fun _ => some .nx) id fun _ _ => rfl
  | xx =>
    cases changed
    exact .condition (fun _ => some .xx) id fun _ _ => rfl
  | ifVersion number =>
    obtain ⟨version, -, rfl⟩ := Option.map_eq_some_iff.mp changed
    exact .condition id (fun _ => some version) fun _ _ => Bool.or_true _
  | ex number =>
    obtain ⟨seconds, -, rfl⟩ := Option.map_eq_some_iff.mp changed
    exact .expiration (fun _ => some (.seconds seconds)) id fun _ _ => Bool.or_true _
  | px number =>
    obtain ⟨millis, -, rfl⟩ := Option.map_eq_some_iff.mp changed
    exact .expiration (fun _ => some (.milliseconds millis)) id fun _ _ => Bool.or_true _
  | keepTtl =>
    cases changed
    exact .expiration id (fun _ => true) fun _ _ => rfl
  | get =>
    cases changed
    exact .previous

theorem Touches.taken_eq (touches : Touches group change) :
    taken (change options) other = (taken options other || decide (group = other)) := by
  cases touches with
  | condition c v full => cases other <;> simp [taken, full]
  | expiration e k full => cases other <;> simp [taken, full]
  | previous => cases other <;> simp [taken]

theorem Touches.comm (one : Touches group change) (two : Touches other later)
    (apart : group ≠ other) : later (change options) = change (later options) := by
  cases one <;> cases two <;> first | exact absurd rfl apart | rfl

theorem addClause_eq_some : addClause options clause = some after ↔
    taken options clause.group = false ∧
      ∃ change, clause.change = some change ∧ change options = after := by
  unfold addClause
  split <;> simp_all

theorem addClause_comm (options : SetOptions) (one two : SetClause) :
    (addClause options one).bind (addClause · two) =
      (addClause options two).bind (addClause · one) := by
  have both {first second : SetClause} {after : SetOptions} :
      (addClause options first).bind (addClause · second) = some after ↔
        first.group ≠ second.group ∧ taken options first.group = false ∧
          taken options second.group = false ∧ ∃ change later, first.change = some change ∧
            second.change = some later ∧ later (change options) = after := by
    simp only [Option.bind_eq_some_iff, addClause_eq_some]
    constructor
    · rintro ⟨_, ⟨room, change, changed, rfl⟩, free, later, next, rfl⟩
      rw [(touches_change changed).taken_eq, Bool.or_eq_false_iff, decide_eq_false_iff_not] at free
      exact ⟨free.2, room, free.1, change, later, changed, next, rfl⟩
    · rintro ⟨apart, room, free, change, later, changed, next, rfl⟩
      refine ⟨_, ⟨room, change, changed, rfl⟩, ?_, later, next, rfl⟩
      rw [(touches_change changed).taken_eq, free, decide_eq_false apart]
      rfl
  have swap {first second : SetClause} {after : SetOptions}
      (added : (addClause options first).bind (addClause · second) = some after) :
      (addClause options second).bind (addClause · first) = some after := by
    obtain ⟨apart, room, free, change, later, changed, next, rfl⟩ := both.mp added
    exact both.mpr ⟨apart.symm, free, room, later, change, next, changed,
      ((touches_change changed).comm (touches_change next) apart).symm⟩
  exact Option.ext fun after => ⟨swap, swap⟩

theorem foldlM_addClause_perm {clauses others : List SetClause} (perm : clauses.Perm others)
    (options : SetOptions) :
    clauses.foldlM addClause options = others.foldlM addClause options := by
  induction perm generalizing options with
  | nil => rfl
  | cons clause perm ih =>
    rw [List.foldlM_cons, List.foldlM_cons]
    exact congrArg _ (funext ih)
  | swap one other rest =>
    simp only [List.foldlM_cons, ← bind_assoc]
    exact congrArg (· >>= fun options => rest.foldlM addClause options)
      (addClause_comm options other one)
  | trans first second one two => exact (one options).trans (two options)

/-- No two clauses of one group, none of a group that is taken, and every number is a `u64`. -/
theorem isSome_foldlM_iff {clauses : List SetClause} :
    (clauses.foldlM addClause options).isSome ↔
      (∀ group, (taken options group).toNat + clauses.countP (·.group = group) ≤ 1) ∧
        ∀ clause ∈ clauses, clause.Numbered := by
  induction clauses generalizing options with
  | nil =>
    refine iff_of_true rfl ⟨fun group => ?_, nofun⟩
    rw [List.countP_nil]
    exact Bool.toNat_le _
  | cons clause clauses ih =>
    rw [List.foldlM_cons]
    cases added : addClause options clause with
    | none =>
      refine iff_of_false Bool.false_ne_true ?_
      rintro ⟨counts, numbered⟩
      obtain ⟨change, changed⟩ := Option.isSome_iff_exists.mp
        (isSome_change_iff.mpr (numbered clause List.mem_cons_self))
      have room : taken options clause.group = false := by
        have count := counts clause.group
        rw [List.countP_cons_of_pos (by simp)] at count
        cases full : taken options clause.group with
        | false => rfl
        | true =>
          rw [full, Bool.toNat_true] at count
          omega
      rw [addClause_eq_some.mpr ⟨room, change, changed, rfl⟩] at added
      cases added
    | some after =>
      obtain ⟨room, change, changed, rfl⟩ := addClause_eq_some.mp added
      have numbered : clause.Numbered :=
        isSome_change_iff.mp (Option.isSome_iff_exists.mpr ⟨change, changed⟩)
      rw [List.forall_mem_cons, and_iff_right numbered]
      refine Iff.trans ih (and_congr_left' (forall_congr' fun group => ?_))
      rw [(touches_change changed).taken_eq, List.countP_cons]
      by_cases same : clause.group = group
      · subst same
        simp only [room, decide_true, Bool.or_true, Bool.toNat_true, Bool.toNat_false, if_true]
        omega
      · simp [same]

end Accepted

/-- **The options of `SET`**: a list of clauses is accepted exactly if it has at most one of each
group and numbers that are `u64`. The same clauses in any order and letter case give the same
command. -/
theorem parseSet_clauses (set key value : Token) (clauses : List SetClause) (tokens : List Token)
    (spelled : AllSpelled clauses tokens) :
    ((∃ command, parseSet (set :: key :: value :: tokens) = .ok command) ↔
      clauses.countP (·.group = .condition) ≤ 1 ∧ clauses.countP (·.group = .expiration) ≤ 1 ∧
        clauses.countP (·.group = .previous) ≤ 1 ∧ ∀ clause ∈ clauses, clause.Numbered) ∧
    ∀ (others : List SetClause) (reordered : List Token), AllSpelled others reordered →
      clauses.Perm others → ∀ command, parseSet (set :: key :: value :: tokens) = .ok command →
        parseSet (set :: key :: value :: reordered) = .ok command := by
  have parsed {listed : List SetClause} {behind : List Token} (spells : AllSpelled listed behind)
      {command : Command} : parseSet (set :: key :: value :: behind) = .ok command ↔
        ∃ options, listed.foldlM addClause {} = some options ∧
          .set key.text (textBytes value.text) options = command := by
    rw [← toOption_parseSetOptions spells, parseSet]
    cases parseSetOptions {} behind with
    | error err => exact ⟨nofun, nofun⟩
    | ok options =>
      constructor
      · rintro ⟨⟩
        exact ⟨options, rfl, rfl⟩
      · rintro ⟨_, ⟨⟩, rfl⟩
        rfl
  constructor
  · have accepted : (∃ command, parseSet (set :: key :: value :: tokens) = .ok command) ↔
        (clauses.foldlM addClause {}).isSome := by
      simp only [parsed spelled, Option.isSome_iff_exists]
      exact ⟨fun ⟨_, options, found, _⟩ => ⟨options, found⟩,
        fun ⟨options, found⟩ => ⟨_, options, found, rfl⟩⟩
    have room (group : ClauseGroup) : (taken {} group).toNat = 0 := by cases group <;> rfl
    simp only [accepted, isSome_foldlM_iff, room, Nat.zero_add]
    constructor
    · rintro ⟨counts, numbered⟩
      exact ⟨counts _, counts _, counts _, numbered⟩
    · rintro ⟨conditions, expirations, previous, numbered⟩
      refine ⟨fun group => ?_, numbered⟩
      cases group
      · exact conditions
      · exact expirations
      · exact previous
  · intro others reordered spells perm command found
    rw [parsed spelled, foldlM_addClause_perm perm] at found
    exact (parsed spells).mpr found

/-- Two clauses in two orders, with mixed letter case. -/
theorem parseSet_clauses_swapped :
    AllSpelled [.ex (.word "30"), .nx] [.word "Ex", .word "30", .word "nX"] ∧
      parseSet [.word "set", .word "k", .word "v", .word "NX", .word "EX", .word "30"] =
        .ok (.set "k" (textBytes "v") ⟨some .nx, none, some (.seconds 30), false, false⟩) := by
  have spelled : AllSpelled [.ex (.word "30"), .nx] [.word "Ex", .word "30", .word "nX"] :=
    .cons (.ex _ (by decide +kernel)) (.cons (.nx (by decide +kernel)) .nil)
  have swapped : AllSpelled [.nx, .ex (.word "30")] [.word "NX", .word "EX", .word "30"] :=
    .cons (.nx (by decide +kernel)) (.cons (.ex _ (by decide +kernel)) .nil)
  refine ⟨spelled, (parseSet_clauses (.word "set") (.word "k") (.word "v") _ _ spelled).2 _ _
    swapped (.swap _ _ _) _ ?_⟩
  decide +kernel

end Parser

end Vaylix
