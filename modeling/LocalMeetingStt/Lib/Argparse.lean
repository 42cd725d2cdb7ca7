import Mathlib.Data.List.Basic
import Mathlib.Logic.Function.Basic

/-!
# Command lines with options

The reader of Python's `argparse`, for options that take one argument or none and for
positionals that take one. Whether a word is an option is settled by the word alone, before
any option asks for its argument: so an argument that looks like an option is not one
(`Parser.IsArgument`), and the option before it is left without.

`consume_given` reads back what was written as options and arguments, in either outcome.
The separator `--`, which makes arguments of all that follows, is not read here: a word `--`
ends the reading.
-/

namespace Argparse

abbrev Word := List Char

variable {δ ν : Type}

inductive Action (ν : Type) where
  /-- One argument, converted; `none` where the conversion or the choices refuse it. -/
  | store (convert : Word → Option ν)
  /-- No argument: the option stands for a value. -/
  | const (value : ν)
  /-- Prints the help and ends the program. -/
  | help

structure Opt (δ ν : Type) where
  flags : List Word
  dest : δ
  action : Action ν

structure Parser (δ ν : Type) where
  options : List (Opt δ ν)
  positionals : List (δ × (Word → Option ν))
  required : List δ
  defaults : δ → ν
  /-- What `\d` matches. -/
  digit : Char → Bool

/-! ## What a word is -/

/-- How the reader takes a word. -/
inductive Reading (δ ν : Type) where
  | separator
  | argument
  | option (opt : Opt δ ν) (explicit : Option Word)
  | unknown
  | ambiguous

namespace Parser

variable (p : Parser δ ν)

def find (flag : Word) : Option (Opt δ ν) := p.options.find? fun opt => opt.flags.contains flag

def spellings : List (Word × Opt δ ν) :=
  p.options.flatMap fun opt => opt.flags.map fun flag => (flag, opt)

/-- `arg.split("=", 1)`, where there is one. -/
def splitEquals (word : Word) : Option (Word × Word) :=
  if word.contains '=' then
    some (word.takeWhile (· ≠ '='), (word.dropWhile (· ≠ '=')).drop 1)
  else none

/-- `^-\d+$|^-\d*\.\d+$`, where `$` is also before a line end. -/
def isNegativeNumber (word : Word) : Bool :=
  match word with
  | '-' :: rest =>
    let rest := if rest.getLast? = some '\n' then rest.dropLast else rest
    let fraction := rest.dropWhile p.digit
    (!rest.isEmpty && fraction.isEmpty) ||
      (fraction.head? = some '.' && !(fraction.drop 1).isEmpty && (fraction.drop 1).all p.digit)
  | _ => false

/-- The options a word may be short for. -/
def candidates : Word → List (Opt δ ν × Option Word)
  | '-' :: '-' :: rest =>
    let (pre, explicit) :=
      ((splitEquals ('-' :: '-' :: rest)).map fun s => (s.1, some s.2)).getD
        ('-' :: '-' :: rest, none)
    (p.spellings.filter fun s => decide (pre <+: s.1)).map fun s => (s.2, explicit)
  | '-' :: c :: rest =>
    -- A short option may have its argument in the same word.
    p.spellings.filterMap fun s =>
      if s.1 = ['-', c] then some (s.2, some rest)
      else if '-' :: c :: rest <+: s.1 then some (s.2, none)
      else none
  | _ => []

/-- `_parse_optional`, and the separator before it. -/
def parseOptional (word : Word) : Reading δ ν :=
  if word = ['-', '-'] then .separator
  else if word.head? ≠ some '-' then .argument
  else
    match p.find word with
    | some opt => .option opt none
    | none =>
      if word.length = 1 then .argument
      else
        match (splitEquals word).bind fun s => (p.find s.1).map fun opt => (opt, s.2) with
        | some (opt, explicit) => .option opt (some explicit)
        | none =>
          match p.candidates word with
          | [(opt, explicit)] => .option opt explicit
          | _ :: _ :: _ => .ambiguous
          | [] =>
            if p.isNegativeNumber word && !(p.spellings.any fun s => p.isNegativeNumber s.1) then
              .argument
            else if word.contains ' ' then .argument
            else .unknown

/-- The word can be the argument of an option. -/
def IsArgument (word : Word) : Prop := p.parseOptional word = .argument

theorem isArgument_of_head {word : Word} (h : word.head? ≠ some '-') : p.IsArgument word := by
  unfold IsArgument parseOptional
  rw [if_neg, if_pos h]
  rintro rfl
  exact h rfl

theorem isNegativeNumber_digits (hpoint : p.digit '.' = false) (hline : p.digit '\n' = false)
    {digits rest : Word} (hne : digits ≠ []) (hdigits : ∀ c ∈ digits, p.digit c = true)
    (hrest : rest = [] ∨
      ∃ fraction, rest = '.' :: fraction ∧ fraction ≠ [] ∧ ∀ c ∈ fraction, p.digit c = true) :
    p.isNegativeNumber ('-' :: (digits ++ rest)) = true := by
  have hend : '\n' ∉ digits ++ rest := by
    intro hmem
    have hlast : ∀ t : Word, (∀ c ∈ t, p.digit c = true) → '\n' ∉ t := by
      intro t ht hmem
      have := ht '\n' hmem
      rw [hline] at this
      exact Bool.noConfusion this
    rcases List.mem_append.mp hmem with hmem | hmem
    · exact hlast digits hdigits hmem
    · rcases hrest with rfl | ⟨fraction, rfl, -, hfraction⟩
      · cases hmem
      · rcases List.mem_cons.mp hmem with heq | hmem
        · cases heq
        · exact hlast fraction hfraction hmem
  have hkept : (digits ++ rest).getLast? ≠ some '\n' := by
    intro hlast
    exact hend (List.mem_of_mem_getLast? hlast)
  have hdrop : (digits ++ rest).dropWhile p.digit = rest := by
    rw [List.dropWhile_append_of_pos hdigits]
    rcases hrest with rfl | ⟨fraction, rfl, -⟩
    · rfl
    · rw [List.dropWhile_cons_of_neg (by simp [hpoint])]
  simp only [isNegativeNumber, hkept, if_false, hdrop]
  rcases hrest with rfl | ⟨fraction, rfl, hfraction, hdigit⟩
  · simp [hne]
  · simp [hfraction, List.all_eq_true.mpr hdigit]

/-- No option looks like a negative number. -/
def Worded : Prop :=
  ∀ s ∈ p.spellings, ∃ c rest, s.1 = '-' :: c :: rest ∧ p.digit c = false ∧ c ≠ '.'

theorem isNegativeNumber_worded {c : Char} {rest : Word} (hdigit : p.digit c = false)
    (hpoint : c ≠ '.') : p.isNegativeNumber ('-' :: c :: rest) = false := by
  cases rest with
  | nil =>
    unfold isNegativeNumber
    by_cases hline : c = '\n' <;> simp [hline, hdigit, hpoint]
  | cons c' rest =>
    have hlast : ∀ t : Word, (if (c :: c' :: rest).getLast? = some '\n' then
        (c :: c' :: rest).dropLast else c :: c' :: rest) = t → ∃ t', t = c :: t' := by
      intro t ht
      subst ht
      split
      · exact ⟨_, rfl⟩
      · exact ⟨_, rfl⟩
    obtain ⟨t, ht⟩ := hlast _ rfl
    simp only [isNegativeNumber, ht]
    simp [hdigit, hpoint]

variable {p}

/-- A negative number is an argument then. -/
theorem Worded.isArgument (h : p.Worded) (hdash : p.digit '-' = false) {d : Char} {rest : Word}
    (hd : p.digit d = true) (hnumber : p.isNegativeNumber ('-' :: d :: rest) = true)
    (hequals : '=' ∉ '-' :: d :: rest) : p.IsArgument ('-' :: d :: rest) := by
  have hne : d ≠ '-' := by
    intro heq
    rw [heq, hdash] at hd
    exact Bool.noConfusion hd
  -- No option begins like it.
  have hspelling : ∀ s ∈ p.spellings, ¬['-', d] <+: s.1 := by
    intro s hs hpre
    obtain ⟨c, tail, hflag, hdigit, -⟩ := h s hs
    obtain ⟨tail', htail⟩ := hpre
    rw [hflag] at htail
    obtain rfl := (List.cons.inj (List.cons.inj htail).2).1
    rw [hd] at hdigit
    exact Bool.noConfusion hdigit
  have hfind : p.find ('-' :: d :: rest) = none := by
    refine List.find?_eq_none.mpr fun opt hopt hmem => ?_
    refine hspelling ('-' :: d :: rest, opt) ?_ ⟨rest, rfl⟩
    exact List.mem_flatMap.mpr ⟨opt, hopt, List.mem_map.mpr
      ⟨_, List.contains_iff_mem.mp hmem, rfl⟩⟩
  have hcandidates : p.candidates ('-' :: d :: rest) = [] := by
    unfold candidates
    split
    · rename_i heq
      exact absurd (List.cons.inj (List.cons.inj heq).2).1 hne
    · rename_i heq
      obtain ⟨rfl, rfl⟩ := List.cons.inj (List.cons.inj heq).2
      refine List.filterMap_eq_nil_iff.mpr fun s hs => ?_
      rw [if_neg, if_neg]
      · exact fun hpre => hspelling s hs (List.IsPrefix.trans ⟨rest, rfl⟩ hpre)
      · intro hflag
        exact hspelling s hs (hflag ▸ List.prefix_rfl)
    · rfl
  have hworded : (p.spellings.any fun s => p.isNegativeNumber s.1) = false := by
    refine List.any_eq_false.mpr fun s hs => ?_
    obtain ⟨c, tail, hflag, hdigit, hpoint⟩ := h s hs
    rw [hflag, p.isNegativeNumber_worded hdigit hpoint]
    exact Bool.false_ne_true
  unfold IsArgument parseOptional splitEquals
  rw [if_neg (by simp [hne]), if_neg (by simp), hfind]
  simp only [List.length_cons]
  simp [hequals, hcandidates, hnumber, hworded]

variable (p)

/-! ## What was written as options -/

/-- An option as it is written, with its argument if it has one. -/
inductive Given where
  | switch (flag : Word)
  | value (flag word : Word)
deriving DecidableEq

def Given.words : Given → List Word
  | .switch flag => [flag]
  | .value flag word => [flag, word]

/-- The parser has the option, spelled out, and it takes an argument if it is given one. -/
def Offers : Given → Prop
  | .switch flag => flag.head? = some '-' ∧ flag ≠ ['-', '-'] ∧
      ∃ opt value, p.find flag = some opt ∧ opt.action = .const value
  | .value flag _ => flag.head? = some '-' ∧ flag ≠ ['-', '-'] ∧
      ∃ opt convert, p.find flag = some opt ∧ opt.action = .store convert

/-- A positional or the argument of an option, if the reader takes it for one. -/
def argument (dest : δ) (convert : Word → Option ν) (word : Word) : Option (δ × ν) :=
  match p.parseOptional word with
  | .argument => (convert word).map fun value => (dest, value)
  | _ => none

/-- What an option sets. -/
def given : Given → Option (δ × ν)
  | .switch flag => (p.find flag).bind fun opt =>
    match opt.action with
    | .const value => some (opt.dest, value)
    | _ => none
  | .value flag word => (p.find flag).bind fun opt =>
    match opt.action with
    | .store convert => p.argument opt.dest convert word
    | _ => none

theorem parseOptional_of_find {flag : Word} {opt : Opt δ ν} (hdash : flag.head? = some '-')
    (hsep : flag ≠ ['-', '-']) (hfind : p.find flag = some opt) :
    p.parseOptional flag = .option opt none := by
  unfold parseOptional
  rw [if_neg hsep, if_neg (not_not.mpr hdash), hfind]

/-! ## Reading a command line -/

structure State (δ ν : Type) where
  values : δ → ν
  seen : List δ
  positionals : List (δ × (Word → Option ν))
  extras : Bool

def State.set [DecidableEq δ] (s : State δ ν) (entry : δ × ν) : State δ ν :=
  { s with values := Function.update s.values entry.1 entry.2, seen := entry.1 :: s.seen }

def start : State δ ν := ⟨p.defaults, [], p.positionals, false⟩

variable [DecidableEq δ]

/-- The words, from the left; `none` where the program ends with a message. -/
def consume : List Word → State δ ν → Option (State δ ν)
  | [], s => some s
  | word :: words, s =>
    match p.parseOptional word with
    | .separator | .ambiguous => none
    | .unknown => consume words { s with extras := true }
    | .argument =>
      match s.positionals with
      | [] => consume words { s with extras := true }
      | (dest, convert) :: positionals =>
        match convert word with
        | none => none
        | some value => consume words ({ s with positionals }.set (dest, value))
    | .option opt explicit =>
      match opt.action, explicit, words with
      | .help, _, _ => none
      | .const value, none, words => consume words (s.set (opt.dest, value))
      -- What follows a short option without an argument would be further short options.
      | .const _, some _, _ => none
      | .store convert, some word, words =>
        match convert word with
        | none => none
        | some value => consume words (s.set (opt.dest, value))
      | .store _, none, [] => none
      | .store convert, none, word :: words =>
        match p.parseOptional word with
        | .argument =>
          match convert word with
          | none => none
          | some value => consume words (s.set (opt.dest, value))
        | _ => none

/-- Nothing may be left, of the words or of what is required. -/
def finish (s : State δ ν) : Option (δ → ν) :=
  if s.extras = false ∧ s.positionals.isEmpty = true ∧ ∀ dest ∈ p.required, dest ∈ s.seen then
    some s.values
  else none

/-- `parse_args` -/
def parseArgs (words : List Word) : Option (δ → ν) :=
  (p.consume words p.start).bind p.finish

/-- One option is read as it was written, or the program ends there. -/
theorem consume_one {c : Given} (h : p.Offers c) (words : List Word) (s : State δ ν) :
    p.consume (c.words ++ words) s =
      (p.given c).bind fun entry => p.consume words (s.set entry) := by
  cases c with
  | switch flag =>
    obtain ⟨hdash, hsep, opt, value, hfind, haction⟩ := h
    show p.consume (flag :: words) s = _
    rw [consume, p.parseOptional_of_find hdash hsep hfind, given, hfind]
    simp only [haction, Option.bind_some]
  | value flag word =>
    obtain ⟨hdash, hsep, opt, convert, hfind, haction⟩ := h
    show p.consume (flag :: word :: words) s = _
    rw [consume, p.parseOptional_of_find hdash hsep hfind, given, hfind]
    simp only [haction, Option.bind_some, argument]
    cases p.parseOptional word with
    | argument => cases convert word <;> rfl
    | separator | option | unknown | ambiguous => rfl

/-- **What was written as options is read back**, in either outcome. -/
theorem consume_given {cs : List Given} (h : ∀ c ∈ cs, p.Offers c) (words : List Word)
    (s : State δ ν) :
    p.consume (cs.flatMap Given.words ++ words) s =
      (cs.mapM p.given).bind fun entries => p.consume words (entries.foldl State.set s) := by
  induction cs generalizing s with
  | nil => rfl
  | cons c cs ih =>
    have hrest := ih fun c' hc' => h c' (List.mem_cons_of_mem c hc')
    rw [List.flatMap_cons, List.append_assoc, p.consume_one (h c List.mem_cons_self),
      List.mapM_cons]
    cases hgiven : p.given c with
    | none => rfl
    | some entry =>
      show p.consume (cs.flatMap Given.words ++ words) (s.set entry) = _
      rw [hrest]
      cases cs.mapM p.given <;> rfl

theorem foldl_set (entries : List (δ × ν)) (s : State δ ν) :
    entries.foldl State.set s =
      { s with
        values := entries.foldl (fun values entry => Function.update values entry.1 entry.2)
          s.values
        seen := (entries.map Prod.fst).reverse ++ s.seen } := by
  induction entries generalizing s with
  | nil => rfl
  | cons entry entries ih =>
    rw [List.foldl_cons, ih]
    simp [State.set]

/-- What is set, if nothing that is required is left out. -/
def result (entries : List (δ × ν)) : Option (δ → ν) :=
  if ∀ dest ∈ p.required, dest ∈ entries.map Prod.fst then
    some (entries.foldl (fun values entry => Function.update values entry.1 entry.2) p.defaults)
  else none

theorem finish_foldl (entries : List (δ × ν)) {s : State δ ν} (hextras : s.extras = false)
    (hpos : s.positionals = []) :
    p.finish (entries.foldl State.set s) =
      if ∀ dest ∈ p.required, dest ∈ s.seen ∨ dest ∈ entries.map Prod.fst then
        some (entries.foldl (fun values entry => Function.update values entry.1 entry.2) s.values)
      else none := by
  rw [foldl_set]
  simp only [finish, hextras, hpos, List.isEmpty_nil, List.mem_append, List.mem_reverse, true_and,
    or_comm]

/-- With something left over, the words that follow make no difference. -/
theorem consume_extras (words : List Word) {s : State δ ν} (h : s.extras = true) :
    (p.consume words s).bind p.finish = none := by
  fun_induction consume with
  | case1 s => simp [finish, h]
  | case2 | case3 | case6 | case8 | case10 | case11 | case13 | case14 | case16 => rfl
  | case4 _ _ _ _ ih | case5 _ _ _ _ _ ih => exact ih rfl
  | case7 | case9 | case12 | case15 =>
    rename_i ih
    exact ih h

/-- With a positional missing, the options make no difference. -/
theorem consume_missing {cs : List Given} (h : ∀ c ∈ cs, p.Offers c) {s : State δ ν}
    (hs : s.positionals ≠ []) :
    (p.consume (cs.flatMap Given.words) s).bind p.finish = none := by
  rw [← List.append_nil (cs.flatMap Given.words), p.consume_given h]
  cases cs.mapM p.given with
  | none => rfl
  | some entries =>
    show p.finish (entries.foldl State.set s) = none
    rw [foldl_set]
    simp [finish, hs]

omit [DecidableEq δ] in
theorem Offers.parseOptional {c : Given} (h : p.Offers c) {flag : Word} {words : List Word}
    (hwords : c.words = flag :: words) : ∃ opt, p.parseOptional flag = .option opt none := by
  cases c with
  | switch flag' =>
    obtain ⟨hdash, hsep, opt, _, hfind, -⟩ := h
    obtain rfl := (List.cons.inj hwords).1
    exact ⟨opt, p.parseOptional_of_find hdash hsep hfind⟩
  | value flag' word' =>
    obtain ⟨hdash, hsep, opt, _, hfind, -⟩ := h
    obtain rfl := (List.cons.inj hwords).1
    exact ⟨opt, p.parseOptional_of_find hdash hsep hfind⟩

/-- The one positional, before the last options. -/
theorem consume_positional {cs : List Given} (h : ∀ c ∈ cs, p.Offers c) {dest : δ}
    {convert : Word → Option ν} {s : State δ ν} (hpos : s.positionals = [(dest, convert)])
    (word : Word) :
    (p.consume (word :: cs.flatMap Given.words) s).bind p.finish =
      (p.argument dest convert word).bind fun entry => (cs.mapM p.given).bind fun entries =>
        p.finish ((entry :: entries).foldl State.set { s with positionals := [] }) := by
  have hset : ∀ entry : δ × ν, (s.set entry).positionals ≠ [] := by
    intro entry
    rw [show (s.set entry).positionals = s.positionals from rfl, hpos]
    exact List.cons_ne_nil _ _
  unfold argument
  rw [consume]
  cases hword : p.parseOptional word with
  | separator | ambiguous => rfl
  | unknown => exact p.consume_extras _ rfl
  | argument =>
    simp only [hpos]
    cases convert word with
    | none => rfl
    | some value =>
      show (p.consume (cs.flatMap Given.words) _).bind p.finish = _
      rw [← List.append_nil (cs.flatMap Given.words), p.consume_given h]
      cases cs.mapM p.given <;> rfl
  | option opt explicit =>
    simp only
    cases haction : opt.action with
    | help => rfl
    | const value =>
      cases explicit with
      | some _ => rfl
      | none => exact p.consume_missing h (hset _)
    | store convert' =>
      cases explicit with
      | some explicit =>
        simp only
        cases convert' explicit with
        | none => rfl
        | some value => exact p.consume_missing h (hset _)
      | none =>
        -- The next word is the next option, and no argument.
        cases cs with
        | nil => rfl
        | cons c cs =>
          cases hwords : c.words with
          | nil => cases c <;> cases hwords
          | cons flag words =>
            obtain ⟨opt', hparse⟩ := Offers.parseOptional p (h c List.mem_cons_self) hwords
            simp only [List.flatMap_cons, hwords, List.cons_append, hparse]
            rfl

/-- A command line of options. -/
theorem parseArgs_given {cs : List Given} (h : ∀ c ∈ cs, p.Offers c) (hpos : p.positionals = []) :
    p.parseArgs (cs.flatMap Given.words) = (cs.mapM p.given).bind p.result := by
  unfold parseArgs
  rw [← List.append_nil (cs.flatMap Given.words), p.consume_given h]
  cases cs.mapM p.given with
  | none => rfl
  | some entries =>
    show p.finish (entries.foldl State.set p.start) = p.result entries
    rw [p.finish_foldl entries rfl hpos]
    simp only [result, start, List.not_mem_nil, false_or]

/-- A command line of options around the one positional. -/
theorem parseArgs_positional {before after : List Given} (hbefore : ∀ c ∈ before, p.Offers c)
    (hafter : ∀ c ∈ after, p.Offers c) {dest : δ} {convert : Word → Option ν}
    (hpos : p.positionals = [(dest, convert)]) (word : Word) :
    p.parseArgs (before.flatMap Given.words ++ word :: after.flatMap Given.words) =
      (before.mapM p.given).bind fun first => (p.argument dest convert word).bind fun entry =>
        (after.mapM p.given).bind fun last => p.result (first ++ entry :: last) := by
  unfold parseArgs
  rw [p.consume_given hbefore]
  cases before.mapM p.given with
  | none => rfl
  | some first =>
    have hleft : (first.foldl State.set p.start).positionals = [(dest, convert)] := by
      rw [foldl_set]
      exact hpos
    show (p.consume _ (first.foldl State.set p.start)).bind p.finish = _
    rw [p.consume_positional hafter hleft]
    refine congrArg _ (funext fun entry => congrArg _ (funext fun last => ?_))
    rw [foldl_set first, p.finish_foldl (entry :: last) rfl rfl]
    simp only [result, start, List.append_nil, List.mem_reverse, List.map_append, List.mem_append,
      List.foldl_append]

/-! ## What is asked for -/

omit [DecidableEq δ] in
theorem parseOptional_unknown {word : Word} (hsep : word ≠ ['-', '-'])
    (hdash : word.head? = some '-') (hfind : p.find word = none) (hlength : word.length ≠ 1)
    (hequals : '=' ∉ word) (hshort : p.candidates word = [])
    (hnumber : p.isNegativeNumber word = false) (hspace : ' ' ∉ word) :
    p.parseOptional word = .unknown := by
  unfold parseOptional splitEquals
  rw [if_neg hsep, if_neg (not_not.mpr hdash), hfind]
  simp [hlength, hequals, hshort, hnumber, hspace]

/-- An option that the parser does not have is left over. -/
theorem parseArgs_unknown {before : List Given} (h : ∀ c ∈ before, p.Offers c) {flag : Word}
    (hflag : p.parseOptional flag = .unknown) (words : List Word) :
    p.parseArgs (before.flatMap Given.words ++ flag :: words) = none := by
  unfold parseArgs
  rw [p.consume_given h]
  cases before.mapM p.given with
  | none => rfl
  | some entries =>
    show (p.consume (flag :: words) (entries.foldl State.set p.start)).bind p.finish = none
    rw [consume, hflag]
    exact p.consume_extras words rfl

/-- The namespace where these are set and nothing else is. -/
def asked (entries : List (δ × ν)) (dest : δ) : ν := (entries.lookup dest).getD (p.defaults dest)

theorem foldl_update_eq_lookup (values : δ → ν) {entries : List (δ × ν)}
    (h : (entries.map Prod.fst).Nodup) :
    entries.foldl (fun values entry => Function.update values entry.1 entry.2) values =
      fun dest => (entries.lookup dest).getD (values dest) := by
  induction entries generalizing values with
  | nil => rfl
  | cons entry entries ih =>
    obtain ⟨first, value⟩ := entry
    obtain ⟨hnotMem, hnodup⟩ := List.nodup_cons.mp h
    rw [List.foldl_cons, ih _ hnodup]
    funext dest
    by_cases hdest : dest = first
    · have hlookup : entries.lookup first = none := by
        rw [List.lookup_eq_none_iff]
        intro other hother
        exact bne_iff_ne.mpr fun heq => hnotMem (List.mem_map.mpr ⟨other, hother, heq.symm⟩)
      subst hdest
      simp [hlookup]
    · have hne : (dest == first) = false := beq_eq_false_iff_ne.mpr hdest
      simp [List.lookup_cons, hdest, hne]

/-- Something that is asked for: how it is written, what it is to set, and when the reader
    can take it. -/
structure Item (δ ν : Type) where
  given : Given
  entry : δ × ν
  fits : Prop

/-- The parser reads it as what it is to set, when it fits. -/
def Reads (item : Item δ ν) : Prop :=
  p.Offers item.given ∧ ∀ entry, p.given item.given = some entry ↔ item.fits ∧ entry = item.entry

variable {p}

omit [DecidableEq δ] in
theorem reads_switch {flag : Word} {opt : Opt δ ν} {value : ν} (hdash : flag.head? = some '-')
    (hsep : flag ≠ ['-', '-']) (hfind : p.find flag = some opt)
    (haction : opt.action = .const value) :
    p.Reads ⟨.switch flag, (opt.dest, value), True⟩ := by
  refine ⟨⟨hdash, hsep, opt, value, hfind, haction⟩, fun entry => ?_⟩
  simp [given, hfind, haction, eq_comm]

omit [DecidableEq δ] in
theorem reads_value {flag word : Word} {opt : Opt δ ν} {convert : Word → Option ν} {value : ν}
    {fits : Prop} (hdash : flag.head? = some '-') (hsep : flag ≠ ['-', '-'])
    (hfind : p.find flag = some opt) (haction : opt.action = .store convert)
    (h : ∀ v, p.IsArgument word ∧ convert word = some v ↔ fits ∧ v = value) :
    p.Reads ⟨.value flag word, (opt.dest, value), fits⟩ := by
  refine ⟨⟨hdash, hsep, opt, convert, hfind, haction⟩, fun entry => ?_⟩
  simp only [given, hfind, haction, Option.bind_some, argument]
  constructor
  · intro hentry
    cases hword : p.parseOptional word with
    | argument =>
      rw [hword] at hentry
      obtain ⟨v, hv, rfl⟩ := Option.map_eq_some_iff.mp hentry
      obtain ⟨hfits, rfl⟩ := (h v).mp ⟨hword, hv⟩
      exact ⟨hfits, rfl⟩
    | separator | option | unknown | ambiguous =>
      rw [hword] at hentry
      cases hentry
  · rintro ⟨hfits, rfl⟩
    obtain ⟨hword, hv⟩ := (h value).mpr ⟨hfits, rfl⟩
    rw [show p.parseOptional word = .argument from hword, hv]
    rfl

omit [DecidableEq δ] in
theorem Reads.mapM_given {items : List (Item δ ν)} (h : ∀ item ∈ items, p.Reads item)
    (entries : List (δ × ν)) :
    (items.map Item.given).mapM p.given = some entries ↔
      (∀ item ∈ items, item.fits) ∧ entries = items.map Item.entry := by
  induction items generalizing entries with
  | nil => simp [eq_comm]
  | cons item items ih =>
    have hrest := ih fun other hother => h other (List.mem_cons_of_mem item hother)
    have hitem := (h item List.mem_cons_self).2
    rw [List.map_cons, List.mapM_cons]
    constructor
    · intro heq
      obtain ⟨entry, hentry, heq⟩ := Option.bind_eq_some_iff.mp heq
      obtain ⟨rest, hmap, heq⟩ := Option.bind_eq_some_iff.mp heq
      obtain ⟨hfits, rfl⟩ := (hitem entry).mp hentry
      obtain ⟨hfitsRest, rfl⟩ := (hrest rest).mp hmap
      exact ⟨List.forall_mem_cons.mpr ⟨hfits, hfitsRest⟩, (Option.some.inj heq).symm⟩
    · intro heq
      obtain ⟨hfits, rfl⟩ := heq
      obtain ⟨hfits, hfitsRest⟩ := List.forall_mem_cons.mp hfits
      rw [(hitem _).mpr ⟨hfits, rfl⟩, (hrest _).mpr ⟨hfitsRest, rfl⟩]
      rfl

omit [DecidableEq δ] in
theorem Reads.offers {items : List (Item δ ν)} (h : ∀ item ∈ items, p.Reads item) :
    ∀ c ∈ items.map Item.given, p.Offers c := by
  intro c hc
  obtain ⟨item, hitem, rfl⟩ := List.mem_map.mp hc
  exact (h item hitem).1

omit [DecidableEq δ] in
theorem flatMap_words (items : List (Item δ ν)) :
    (items.flatMap fun item => item.given.words) =
      (items.map Item.given).flatMap Given.words := by
  rw [List.flatMap_map]

theorem result_iff {entries : List (δ × ν)} (hnodup : (entries.map Prod.fst).Nodup)
    (hrequired : ∀ dest ∈ p.required, dest ∈ entries.map Prod.fst) (values : δ → ν) :
    p.result entries = some values ↔ values = p.asked entries := by
  unfold result
  rw [if_pos hrequired, foldl_update_eq_lookup p.defaults hnodup, Option.some_inj, eq_comm]
  rfl

/-- **A command line is read as what is asked for**, or it is refused: when one of its items
    does not fit. -/
theorem Reads.parseArgs {items : List (Item δ ν)} (h : ∀ item ∈ items, p.Reads item)
    (hpos : p.positionals = []) (hnodup : (items.map fun item => item.entry.1).Nodup)
    (hrequired : ∀ dest ∈ p.required, dest ∈ items.map fun item => item.entry.1)
    (values : δ → ν) :
    p.parseArgs (items.flatMap fun item => item.given.words) = some values ↔
      (∀ item ∈ items, item.fits) ∧ values = p.asked (items.map Item.entry) := by
  have hresult : ∀ values, p.result (items.map Item.entry) = some values ↔
      values = p.asked (items.map Item.entry) :=
    result_iff (by rw [List.map_map]; exact hnodup) (by rw [List.map_map]; exact hrequired)
  rw [flatMap_words, p.parseArgs_given (Reads.offers h) hpos, Option.bind_eq_some_iff]
  simp only [Reads.mapM_given h, and_assoc, exists_and_left, exists_eq_left, hresult]

/-- The same around the one positional. -/
theorem Reads.parseArgs_positional {before after : List (Item δ ν)}
    (hbefore : ∀ item ∈ before, p.Reads item) (hafter : ∀ item ∈ after, p.Reads item) {dest : δ}
    {convert : Word → Option ν} (hpos : p.positionals = [(dest, convert)]) {word : Word} {value : ν}
    (hconvert : convert word = some value)
    (hnodup : ((before.map Item.entry ++ (dest, value) :: after.map Item.entry).map
      Prod.fst).Nodup)
    (hrequired : ∀ dest' ∈ p.required, dest' ∈
      (before.map Item.entry ++ (dest, value) :: after.map Item.entry).map Prod.fst)
    (values : δ → ν) :
    p.parseArgs ((before.flatMap fun item => item.given.words) ++
        word :: after.flatMap fun item => item.given.words) = some values ↔
      ((∀ item ∈ before, item.fits) ∧ p.IsArgument word ∧ ∀ item ∈ after, item.fits) ∧
        values = p.asked (before.map Item.entry ++ (dest, value) :: after.map Item.entry) := by
  have hargument : ∀ entry, p.argument dest convert word = some entry ↔
      p.IsArgument word ∧ entry = (dest, value) := by
    intro entry
    unfold argument IsArgument
    cases p.parseOptional word <;> simp [hconvert, eq_comm]
  have hresult := fun values => result_iff hnodup hrequired values
  rw [flatMap_words, flatMap_words,
    p.parseArgs_positional (Reads.offers hbefore) (Reads.offers hafter) hpos]
  simp only [Option.bind_eq_some_iff, Reads.mapM_given hbefore, Reads.mapM_given hafter, hargument]
  constructor
  · rintro ⟨_, ⟨hfirst, rfl⟩, _, ⟨hword, rfl⟩, _, ⟨hlast, rfl⟩, heq⟩
    exact ⟨⟨hfirst, hword, hlast⟩, (hresult values).mp heq⟩
  · rintro ⟨⟨hfirst, hword, hlast⟩, heq⟩
    exact ⟨_, ⟨hfirst, rfl⟩, _, ⟨hword, rfl⟩, _, ⟨hlast, rfl⟩, (hresult values).mpr heq⟩

end Parser

end Argparse
