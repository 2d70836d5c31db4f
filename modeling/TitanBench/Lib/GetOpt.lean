import Mathlib.Data.List.TakeWhile

/-!
# Options on a command line

The conventions of `getopt_long` in the GNU C library. An argument that starts with a dash is an
option, and the others are words that may stand anywhere between the options. All short options
take an argument here.

* `Options.scan` — what the calls of `getopt_long` find, as the library computes it.
* `Reads` — the command lines that spell a list of options, as a grammar.
* `scan_reads`, `scan_cases` — the scanner reads the grammar, and what is in the way otherwise.
-/

namespace GetOpt

/-- A long option. Its value is what a call that finds it returns. -/
structure LongOption (α ν : Type*) where
  name : List α
  takesArg : Bool
  val : ν

/-- The options a program knows. -/
structure Options (α ν : Type*) where
  dash : α
  equals : α
  short : α → Option ν
  long : List (LongOption α ν)

/-- An option that was found, with its argument. -/
abbrev Found (α ν : Type*) := ν × Option (List α)

/-- What one element of the command line is on its own. -/
inductive Element (α ν : Type*)
  | word
  | terminator
  | option (found : Found α ν)
  | needsArg (val : ν)
  | malformed

/-- The result of one call. -/
inductive Answer (α ν : Type*)
  | option (found : Found α ν)
  | malformed

variable {α ν : Type*} [DecidableEq α]

/-! ## Names and arguments -/

theorem all_ne {e : α} {name : List α} (h : e ∉ name) : ∀ a ∈ name, decide (a ≠ e) = true :=
  fun _ ha => decide_eq_true fun heq => h (heq ▸ ha)

theorem takeWhile_ne {e : α} {name : List α} (h : e ∉ name) : name.takeWhile (· ≠ e) = name :=
  List.takeWhile_eq_self_iff.mpr (all_ne h)

theorem dropWhile_ne {e : α} {name : List α} (h : e ∉ name) : name.dropWhile (· ≠ e) = [] :=
  List.dropWhile_eq_nil_iff.mpr (all_ne h)

theorem takeWhile_ne_joined {e : α} {name : List α} (h : e ∉ name) (arg : List α) :
    (name ++ e :: arg).takeWhile (· ≠ e) = name := by
  rw [List.takeWhile_append_of_pos (all_ne h)]
  simp

theorem dropWhile_ne_joined {e : α} {name : List α} (h : e ∉ name) (arg : List α) :
    (name ++ e :: arg).dropWhile (· ≠ e) = e :: arg := by
  rw [List.dropWhile_append_of_pos (all_ne h)]
  simp

variable [DecidableEq ν]

namespace Options

variable (known : Options α ν)

/-- The option with this name, or else the one that it abbreviates. -/
def lookup (name : List α) : Option (LongOption α ν) :=
  match known.long.find? fun o => o.name = name with
  | some o => some o
  | none =>
    match known.long.filter fun o => name <+: o.name with
    | [] => none
    | o :: others =>
      if ∀ o' ∈ others, o'.takesArg = o.takesArg ∧ o'.val = o.val then some o else none

/-- An element that starts with two dashes, without them. -/
def classifyLong (body : List α) : Element α ν :=
  match known.lookup (body.takeWhile (· ≠ known.equals)), body.dropWhile (· ≠ known.equals) with
  | none, _ => .malformed
  | some o, [] => if o.takesArg then .needsArg o.val else .option (o.val, none)
  | some o, _ :: arg => if o.takesArg then .option (o.val, some arg) else .malformed

def classify : List α → Element α ν
  | a :: b :: body =>
    if a ≠ known.dash then .word
    else if b = known.dash then if body = [] then .terminator else known.classifyLong body
    else
      match known.short b with
      | none => .malformed
      | some val => if body = [] then .needsArg val else .option (val, some body)
  | _ => .word

/-- The answers of `getopt_long` up to the first that is not an option, and whether words are left
over at the end. -/
def scan : List (List α) → List (Answer α ν) × Bool
  | [] => ([], false)
  | w :: args =>
    match known.classify w with
    | .word => ((scan args).1, true)
    | .terminator => ([], args ≠ [])
    | .option found => (.option found :: (scan args).1, (scan args).2)
    | .needsArg val =>
      match args with
      | [] => ([.malformed], false)
      | arg :: args => (.option (val, some arg) :: (scan args).1, (scan args).2)
    | .malformed => ([.malformed], false)

/-! ## The grammar -/

/-- A word starts with no dash, or is nothing but one. -/
def IsWord (w : List α) : Prop := ∀ b body, w ≠ known.dash :: b :: body

/-- The name of an option as it may be written. -/
structure Names (name : List α) (o : LongOption α ν) : Prop where
  lookup : known.lookup name = some o
  equals : known.equals ∉ name

/-- The ways to write an option. -/
inductive Spells : List (List α) → Found α ν → Prop
  | short {c : α} {val : ν} (h : known.short c = some val) (hc : c ≠ known.dash) (arg : List α) :
    Spells [[known.dash, c], arg] (val, some arg)
  | shortJoined {c : α} {val : ν} (h : known.short c = some val) (hc : c ≠ known.dash)
    {arg : List α} (harg : arg ≠ []) : Spells [known.dash :: c :: arg] (val, some arg)
  | long {name : List α} {o : LongOption α ν} (h : known.Names name o) (hname : name ≠ [])
    (ho : o.takesArg = true) (arg : List α) :
    Spells [known.dash :: known.dash :: name, arg] (o.val, some arg)
  | longJoined {name : List α} {o : LongOption α ν} (h : known.Names name o)
    (ho : o.takesArg = true) (arg : List α) :
    Spells [known.dash :: known.dash :: (name ++ known.equals :: arg)] (o.val, some arg)
  | flag {name : List α} {o : LongOption α ν} (h : known.Names name o) (hname : name ≠ [])
    (ho : o.takesArg = false) : Spells [known.dash :: known.dash :: name] (o.val, none)

/-- Options, with words between them. -/
inductive Reads : List (List α) → List (Found α ν) → Bool → Prop
  | nil : Reads [] [] false
  | word {w : List α} (hw : known.IsWord w) {args : List (List α)} {found : List (Found α ν)}
    {words : Bool} (h : Reads args found words) : Reads (w :: args) found true
  | option {ws : List (List α)} {o : Found α ν} (ho : known.Spells ws o) {args : List (List α)}
    {found : List (Found α ν)} {words : Bool} (h : Reads args found words) :
    Reads (ws ++ args) (o :: found) words

/-- What the scanner may stop at. -/
inductive Stops : List (List α) → List (Answer α ν) × Bool → Prop
  | done : Stops [] ([], false)
  | terminator (args : List (List α)) : Stops ([known.dash, known.dash] :: args) ([], args ≠ [])
  | malformed {w : List α} (h : known.classify w = .malformed) (args : List (List α)) :
    Stops (w :: args) ([.malformed], false)
  | missing {w : List α} {val : ν} (h : known.classify w = .needsArg val) :
    Stops [w] ([.malformed], false)

/-! ## Single elements -/

variable {known : Options α ν}

/-- What an element is on its own, with the grammar's word for it. -/
inductive Means (known : Options α ν) (w : List α) : Element α ν → Prop
  | word (h : known.IsWord w) : Means known w .word
  | terminator (h : w = [known.dash, known.dash]) : Means known w .terminator
  | option {o : Found α ν} (h : known.Spells [w] o) : Means known w (.option o)
  | needsArg {val : ν} (h : ∀ arg, known.Spells [w, arg] (val, some arg)) :
    Means known w (.needsArg val)
  | malformed : Means known w .malformed

theorem means_classifyLong (known : Options α ν) {body : List α} (hbody : body ≠ []) :
    known.Means (known.dash :: known.dash :: body) (known.classifyLong body) := by
  unfold classifyLong
  by_cases hequals : known.equals ∈ body
  · obtain ⟨name, arg, rfl, hname⟩ := List.eq_append_cons_of_mem hequals
    rw [takeWhile_ne_joined hname, dropWhile_ne_joined hname]
    cases ho : known.lookup name with
    | none => exact .malformed
    | some o =>
      dsimp only
      split_ifs with htakes
      · exact .option (.longJoined ⟨ho, hname⟩ htakes arg)
      · exact .malformed
  · rw [takeWhile_ne hequals, dropWhile_ne hequals]
    cases ho : known.lookup body with
    | none => exact .malformed
    | some o =>
      dsimp only
      split_ifs with htakes
      · exact .needsArg fun arg => .long ⟨ho, hequals⟩ hbody htakes arg
      · exact .option (.flag ⟨ho, hequals⟩ hbody (Bool.eq_false_iff.mpr htakes))

theorem classify_long {body : List α} (hbody : body ≠ []) :
    known.classify (known.dash :: known.dash :: body) = known.classifyLong body := by
  simp [classify, hbody]

theorem classify_terminator : known.classify [known.dash, known.dash] = .terminator := by
  simp [classify]

theorem classify_short {c : α} (hc : c ≠ known.dash) (body : List α) :
    known.classify (known.dash :: c :: body) =
      match known.short c with
      | none => .malformed
      | some val => if body = [] then .needsArg val else .option (val, some body) := by
  simp [classify, hc]

theorem classify_of_isWord {w : List α} (h : known.IsWord w) : known.classify w = .word := by
  rcases w with _ | ⟨a, _ | ⟨b, body⟩⟩
  · rfl
  · rfl
  · have ha : a ≠ known.dash := fun heq => h b body (heq ▸ rfl)
    simp [classify, ha]

theorem means_classify (known : Options α ν) (w : List α) : known.Means w (known.classify w) := by
  by_cases hword : known.IsWord w
  · rw [classify_of_isWord hword]
    exact .word hword
  · simp only [IsWord, ne_eq, not_forall, not_not] at hword
    obtain ⟨c, body, rfl⟩ := hword
    by_cases hc : c = known.dash
    · subst hc
      by_cases hbody : body = []
      · subst hbody
        rw [classify_terminator]
        exact .terminator rfl
      · rw [classify_long hbody]
        exact means_classifyLong known hbody
    · rw [classify_short hc]
      cases h : known.short c with
      | none => exact .malformed
      | some val =>
        dsimp only
        split_ifs with hbody
        · subst hbody
          exact .needsArg fun arg => .short h hc arg
        · exact .option (.shortJoined h hc hbody)

/-- A spelling is one element, or one that needs an argument and the argument. -/
theorem Spells.classify {ws : List (List α)} {o : Found α ν} (h : known.Spells ws o) :
    (∃ w, ws = [w] ∧ known.classify w = .option o) ∨
      ∃ w val arg, ws = [w, arg] ∧ known.classify w = .needsArg val ∧ o = (val, some arg) := by
  cases h with
  | short h hc arg =>
    refine .inr ⟨_, _, arg, rfl, ?_, rfl⟩
    simp [classify_short hc, h]
  | shortJoined h hc harg =>
    refine .inl ⟨_, rfl, ?_⟩
    simp [classify_short hc, h, harg]
  | long h hname ho arg =>
    refine .inr ⟨_, _, arg, rfl, ?_, rfl⟩
    rw [classify_long hname]
    simp only [classifyLong, takeWhile_ne h.equals, dropWhile_ne h.equals, h.lookup, ho, if_true]
  | longJoined h ho arg =>
    refine .inl ⟨_, rfl, ?_⟩
    rw [classify_long (by simp)]
    simp only [classifyLong, takeWhile_ne_joined h.equals, dropWhile_ne_joined h.equals, h.lookup,
      ho, if_true]
  | flag h hname ho =>
    refine .inl ⟨_, rfl, ?_⟩
    rw [classify_long hname]
    simp only [classifyLong, takeWhile_ne h.equals, dropWhile_ne h.equals, h.lookup, ho,
      Bool.false_eq_true, if_false]

/-! ## The whole command line -/

/-- **The scanner reads the grammar**, and goes on with what is behind it. -/
theorem scan_reads {args : List (List α)} {found : List (Found α ν)} {words : Bool}
    (h : known.Reads args found words) (rest : List (List α)) :
    known.scan (args ++ rest) =
      (found.map .option ++ (known.scan rest).1, words || (known.scan rest).2) := by
  induction h with
  | nil => simp
  | word hw h ih => simp [scan, classify_of_isWord hw, ih]
  | option ho h ih =>
    obtain ⟨w, rfl, hw⟩ | ⟨w, val, arg, rfl, hw, rfl⟩ := ho.classify
    · simp [scan, hw, ih]
    · simp [scan, hw, ih]

theorem Stops.scan {rest : List (List α)} {result : List (Answer α ν) × Bool}
    (h : known.Stops rest result) : known.scan rest = result := by
  cases h with
  | done => rfl
  | terminator args => simp [Options.scan, classify_terminator]
  | malformed h args => simp [Options.scan, h]
  | missing h => simp [Options.scan, h]

/-- Every command line is one of the grammar up to where the scanner stops. -/
theorem exists_reads (known : Options α ν) (args : List (List α)) :
    ∃ pre rest found words result, args = pre ++ rest ∧ known.Reads pre found words ∧
      known.Stops rest result := by
  have hstop : ∀ {args : List (List α)} {result : List (Answer α ν) × Bool},
      known.Stops args result → ∃ pre rest found words result, args = pre ++ rest ∧
        known.Reads pre found words ∧ known.Stops rest result :=
    fun h => ⟨[], _, [], false, _, rfl, .nil, h⟩
  induction args using Options.scan.induct known with
  | case1 => exact hstop .done
  | case2 w args hw ih =>
    obtain ⟨pre, rest, found, words, result, rfl, hreads, hstops⟩ := ih
    have hmeans := means_classify known w
    rw [hw] at hmeans
    cases hmeans with
    | word hword => exact ⟨_, rest, found, true, result, rfl, .word hword hreads, hstops⟩
  | case3 w args hw =>
    have hmeans := means_classify known w
    rw [hw] at hmeans
    cases hmeans with
    | terminator hterm => exact hterm ▸ hstop (.terminator args)
  | case4 w args o hw ih =>
    obtain ⟨pre, rest, found, words, result, rfl, hreads, hstops⟩ := ih
    have hmeans := means_classify known w
    rw [hw] at hmeans
    cases hmeans with
    | option ho =>
      exact ⟨w :: pre, rest, o :: found, words, result, rfl, .option ho hreads, hstops⟩
  | case5 w val hw => exact hstop (.missing hw)
  | case6 w val hw arg args ih =>
    obtain ⟨pre, rest, found, words, result, rfl, hreads, hstops⟩ := ih
    have hmeans := means_classify known w
    rw [hw] at hmeans
    cases hmeans with
    | needsArg ho =>
      exact ⟨w :: arg :: pre, rest, _, words, result, rfl, .option (ho arg) hreads, hstops⟩
  | case7 w args hw => exact hstop (.malformed hw args)

/-- The letters of the arguments of options are letters of the command line. -/
theorem Reads.forall_arg {P : α → Prop} {args : List (List α)} {found : List (Found α ν)}
    {words : Bool} (h : known.Reads args found words) (hargs : ∀ w ∈ args, ∀ a ∈ w, P a) :
    ∀ o ∈ found, ∀ arg ∈ o.2, ∀ a ∈ arg, P a := by
  induction h with
  | nil => exact fun o ho => absurd ho List.not_mem_nil
  | word hw h ih => exact ih fun w hmem => hargs w (List.mem_cons_of_mem _ hmem)
  | option ho h ih =>
    have hrest := ih fun w hmem => hargs w (List.mem_append_right _ hmem)
    refine List.forall_mem_cons.mpr ⟨fun arg harg a ha => ?_, hrest⟩
    -- The argument stands behind its option, alone or joined to it.
    cases ho with
    | short hc hne arg' =>
      cases harg
      exact hargs arg (by simp) a ha
    | shortJoined hc hne harg' =>
      cases harg
      exact hargs _ (List.mem_append_left _ List.mem_cons_self) a (by simp [ha])
    | long hname hne htakes arg' =>
      cases harg
      exact hargs arg (by simp) a ha
    | longJoined hname htakes arg' =>
      cases harg
      exact hargs _ (List.mem_append_left _ List.mem_cons_self) a (by simp [ha])
    | flag => cases harg

/-- Where an option stands on the command line. -/
theorem Reads.split {args : List (List α)} {found found' : List (Found α ν)} {o : Found α ν}
    {words : Bool} (h : known.Reads args (found ++ o :: found') words) :
    ∃ pre ws post, args = pre ++ ws ++ post ∧ (∃ words, known.Reads pre found words) ∧
      known.Spells ws o := by
  generalize hall : found ++ o :: found' = all at h
  induction h generalizing found with
  | nil => simp at hall
  | word hw h ih =>
    obtain ⟨pre, ws, post, rfl, ⟨words, hpre⟩, hws⟩ := ih hall
    exact ⟨_ :: pre, ws, post, rfl, ⟨true, .word hw hpre⟩, hws⟩
  | option ho h ih =>
    cases found with
    | nil =>
      cases hall
      exact ⟨[], _, _, rfl, ⟨false, .nil⟩, ho⟩
    | cons p found =>
      obtain ⟨rfl, htail⟩ := List.cons.inj hall
      obtain ⟨pre, ws, post, rfl, ⟨words, hpre⟩, hws⟩ := ih htail
      refine ⟨_ ++ pre, ws, post, ?_, ⟨words, .option ho hpre⟩, hws⟩
      simp only [List.append_assoc]

end Options

end GetOpt
