import Quetz.Lib.CxxString

/-!
# The Launch Gate of the ColdFire Adapter

`coldFireLaunchError` (`src/quetz_platform_contract.h`) reads the extra arguments of QEMU from left
to right and accepts them only if they select the machine of the platform descriptor and nothing
else that changes the model. It removes the first of two dashes, takes a value from the text after
`=` or from the next element, and skips that element.

What such a list means is stated apart from the scanner: `Reads args items` says that the elements
are, from left to right, model options with their values and elements that are none. The gate
accepts exactly the lists with such a reading whose items keep the contract.

## Main results

* `gateLoop_eq_ok_iff`: the loop against the reading, with the flags it starts and ends with.
* `coldFireLaunchError_eq_none_iff`: the lists the gate accepts.
-/

namespace Quetz.Launch

open CxxString

/-! ### The gate -/

/-- The options that select the model; `-M` is `-machine`. -/
inductive ModelOption where
  | machine
  | cpu
  | smp
  | accel
deriving DecidableEq, Repr

/-- The option without the first of two dashes. -/
def undash (option : List Char) : List Char :=
  if "--".toList.isPrefixOf option then option.drop 1 else option

def forbiddenKey (key : List Char) : Bool :=
  key == "-readconfig".toList || key == "-global".toList || key == "-enable-kvm".toList

def modelKey (key : List Char) : Option ModelOption :=
  if key = "-machine".toList ∨ key = "-M".toList then some .machine
  else if key = "-cpu".toList then some .cpu
  else if key = "-smp".toList then some .smp
  else if key = "-accel".toList then some .accel
  else none

/-- `std::to_string` of a count. -/
def toDecimal (n : UInt32) : List Char := Nat.toDigits 10 n.toNat

/-- One option with its value: `machine_seen`, `cpu_seen`, `smp_seen` and `accel_seen` after it. -/
def checkValue (vcpus : UInt32) (machineName : List Char) (seen : ModelOption → Bool)
    (o : ModelOption) (value : List Char) : Except String (ModelOption → Bool) :=
  match o with
  | .machine =>
      if seen .machine || substr value 0 (find value ',' 0) != machineName ||
          (findText value ",type=".toList).isSome || (findText value ",accel=".toList).isSome then
        .error "QEMU machine does not match the platform descriptor"
      else .ok (Function.update seen .machine true)
  | .cpu =>
      if seen .cpu || value != "cfv4e".toList then
        .error "ColdFire adapter supports only one cfv4e selection"
      else .ok (Function.update seen .cpu true)
  | .smp =>
      if seen .smp || value != toDecimal vcpus then
        .error "QEMU topology does not match configured CPU count"
      else .ok (Function.update seen .smp true)
  | .accel =>
      if seen .accel || (value != "tcg,thread=single".toList &&
          !(vcpus == 1 && value == "tcg".toList)) then
        .error "ColdFire adapter requires single-thread TCG"
      else .ok (Function.update seen .accel true)

/-- The loop over the arguments. -/
def gateLoop (vcpus : UInt32) (machineName : List Char) (seen : ModelOption → Bool) :
    List (List Char) → Except String (ModelOption → Bool)
  | [] => .ok seen
  | arg :: rest =>
      let option := undash arg
      let equal := find option '=' 0
      let key := substr option 0 equal
      if forbiddenKey key then .error "ColdFire adapter forbids external model overrides"
      else match modelKey key with
        | none => gateLoop vcpus machineName seen rest
        | some o =>
            match equal, rest with
            | some equal, rest =>
                match checkValue vcpus machineName seen o (substr option (equal + 1) none) with
                | .ok seen => gateLoop vcpus machineName seen rest
                | .error e => .error e
            | none, value :: rest =>
                match checkValue vcpus machineName seen o value with
                | .ok seen => gateLoop vcpus machineName seen rest
                | .error e => .error e
            | none, [] => .error "missing QEMU model option value"

/-- `coldFireLaunchError`; `none` is the null pointer of a list that is accepted. -/
def coldFireLaunchError (args : List (List Char)) (vcpus : UInt32) (machineName : List Char) :
    Option String :=
  if vcpus < 1 || vcpus > 2 then some "ColdFire adapter requires one or two CPUs"
  else if machineName.isEmpty || machineName.any (", \t\n=".toList.contains ·) then
    some "ColdFire adapter requires an explicit platform_machine name"
  else match gateLoop vcpus machineName (fun _ => false) args with
    | .error e => some e
    | .ok seen =>
        if !seen .machine then some "ColdFire adapter requires an explicit QEMU machine"
        else if vcpus == 2 && (!seen .smp || !seen .accel) then
          some "two CPUs require explicit -smp 2 and single-thread TCG"
        else none

/-! ### What a list of arguments says -/

/-- The names of an option, with one dash. -/
def names : ModelOption → List (List Char)
  | .machine => ["-machine".toList, "-M".toList]
  | .cpu => ["-cpu".toList]
  | .smp => ["-smp".toList]
  | .accel => ["-accel".toList]

/-- The options that override the model from outside. -/
def overrides : List (List Char) := ["-readconfig".toList, "-global".toList, "-enable-kvm".toList]

/-- The key is one of the names, with one dash or two. -/
def Spells (names : List (List Char)) (key : List Char) : Prop :=
  ∃ name ∈ names, key = name ∨ key = '-' :: name

instance (names : List (List Char)) (key : List Char) : Decidable (Spells names key) :=
  inferInstanceAs (Decidable (∃ name ∈ names, key = name ∨ key = '-' :: name))

/-- The text of an element before its first `=`. -/
def keyOf (arg : List Char) : List Char := arg.takeWhile (· != '=')

/-- What a reader finds at the left end of a list: an option with its value, or an element that is
no model option. -/
inductive Item where
  | model (o : ModelOption) (value : List Char)
  | other (arg : List Char)
deriving DecidableEq, Repr

/-- The list is read completely: the value of an option is the text after `=` or the next element,
which is then not read as an option. -/
inductive Reads : List (List Char) → List Item → Prop
  | nil : Reads [] []
  | joined {o : ModelOption} {key value : List Char} {rest : List (List Char)} {items : List Item}
      (hkey : Spells (names o) key) (h : Reads rest items) :
      Reads ((key ++ '=' :: value) :: rest) (.model o value :: items)
  | separate {o : ModelOption} {key value : List Char} {rest : List (List Char)}
      {items : List Item} (hkey : Spells (names o) key) (h : Reads rest items) :
      Reads (key :: value :: rest) (.model o value :: items)
  | other {arg : List Char} {rest : List (List Char)} {items : List Item}
      (hkey : ∀ o, ¬Spells (names o) (keyOf arg)) (h : Reads rest items) :
      Reads (arg :: rest) (.other arg :: items)

/-- The values given to an option. -/
def valuesOf (o : ModelOption) : List Item → List (List Char)
  | [] => []
  | .model o' value :: items => if o' = o then value :: valuesOf o items else valuesOf o items
  | .other _ :: items => valuesOf o items

/-- A field of the value, the first or one after a comma, is `key=…`. -/
def Sets (key value : List Char) : Prop :=
  (∃ r, value = key ++ '=' :: r) ∨ ∃ l r, value = l ++ ',' :: (key ++ '=' :: r)

/-- The machine of the descriptor, with other properties perhaps, but its type and accelerator. -/
def IsMachine (machineName value : List Char) : Prop :=
  value.takeWhile (· != ',') = machineName ∧
    ¬Sets "type".toList value ∧ ¬Sets "accel".toList value

/-- Single-thread TCG; one CPU is single-thread anyway. -/
def SingleThread (vcpus : UInt32) (value : List Char) : Prop :=
  value = "tcg,thread=single".toList ∨ vcpus = 1 ∧ value = "tcg".toList

/-- What the contract says of a value. -/
def Allowed (vcpus : UInt32) (machineName : List Char) : ModelOption → List Char → Prop
  | .machine, value => IsMachine machineName value
  | .cpu, value => value = "cfv4e".toList
  | .smp, value => value = toDecimal vcpus
  | .accel, value => SingleThread vcpus value

/-- The name of a machine: not empty, and no list of properties. -/
def IsName (machineName : List Char) : Prop :=
  machineName ≠ [] ∧ ∀ c ∈ ", \t\n=".toList, c ∉ machineName

/-- The contract of the launch. -/
structure Contract (vcpus : UInt32) (machineName : List Char) (items : List Item) : Prop where
  cpus : vcpus = 1 ∨ vcpus = 2
  name : IsName machineName
  allowed : ∀ o, ∀ value ∈ valuesOf o items, Allowed vcpus machineName o value
  no_override : ∀ arg, .other arg ∈ items → ¬Spells overrides (keyOf arg)
  once : ∀ o, (valuesOf o items).length ≤ 1
  machine : valuesOf .machine items ≠ []
  two : vcpus = 2 → valuesOf .smp items ≠ [] ∧ valuesOf .accel items ≠ []

/-! ### Keys -/

section

variable {arg key value n : List Char} {ns : List (List Char)} {o o' : ModelOption}

/-- Of two dashes one is dropped. -/
theorem undash_dashes (t : List Char) : undash ('-' :: '-' :: t) = '-' :: t := rfl

/-- Any other argument stays. -/
theorem undash_of_not (h : ¬"--".toList <+: arg) : undash arg = arg :=
  if_neg fun hdash => h (List.isPrefixOf_iff_prefix.mp hdash)

/-- An element begins with two dashes, or keeps all it has. -/
theorem undash_cases (arg : List Char) :
    (∃ t, arg = '-' :: '-' :: t) ∨ ¬"--".toList <+: arg := by
  by_cases h : "--".toList <+: arg
  · obtain ⟨t, rfl⟩ := h
    exact Or.inl ⟨t, rfl⟩
  · exact Or.inr h

/-- A dash belongs to the key. -/
theorem keyOf_cons_dash (t : List Char) : keyOf ('-' :: t) = '-' :: keyOf t :=
  List.takeWhile_cons_of_pos rfl

/-- The key of an element without its first dash. -/
theorem keyOf_undash (arg : List Char) : keyOf (undash arg) = undash (keyOf arg) := by
  obtain ⟨t, rfl⟩ | h := undash_cases arg
  · rw [undash_dashes, keyOf_cons_dash, keyOf_cons_dash, keyOf_cons_dash, undash_dashes]
  · have hkey : ¬"--".toList <+: keyOf arg := fun hdash => h (hdash.trans (List.takeWhile_prefix _))
    rw [undash_of_not h, undash_of_not hkey]

/-- An argument without a value is its key. -/
theorem keyOf_of_not_mem (h : '=' ∉ key) : keyOf key = key :=
  List.takeWhile_eq_self_iff.mpr fun _ hx => bne_iff_ne.mpr (ne_of_mem_of_not_mem hx h)

/-- The key ends before the first equals sign. -/
theorem keyOf_append (h : '=' ∉ key) (value : List Char) : keyOf (key ++ '=' :: value) = key := by
  have hall : ∀ x ∈ key, (x != '=') = true := fun x hx =>
    bne_iff_ne.mpr (ne_of_mem_of_not_mem hx h)
  rw [keyOf, List.takeWhile_append_of_pos hall, List.takeWhile_cons_of_neg (by decide),
    List.append_nil]

/-- A name with one dash is what is left of it and of itself with two. -/
theorem undash_eq_iff {c : Char} {t : List Char} (hc : c ≠ '-') :
    undash key = '-' :: c :: t ↔ key = '-' :: c :: t ∨ key = '-' :: '-' :: c :: t := by
  have hone : ¬"--".toList <+: '-' :: c :: t := by
    rintro ⟨r, hr⟩
    exact hc (List.cons.inj (List.cons.inj hr).2).1.symm
  constructor
  · intro h
    obtain ⟨r, rfl⟩ | hkey := undash_cases key
    · rw [undash_dashes] at h
      exact Or.inr (congrArg _ h)
    · rw [undash_of_not hkey] at h
      exact Or.inl h
  · rintro (rfl | rfl)
    · exact undash_of_not hone
    · rfl

/-- The scanner compares with names of one dash. -/
theorem spells_iff (hns : ∀ n ∈ ns, ∃ c t, n = '-' :: c :: t ∧ c ≠ '-') :
    Spells ns key ↔ undash key ∈ ns := by
  constructor
  · rintro ⟨n, hn, hkey⟩
    obtain ⟨c, t, rfl, hc⟩ := hns n hn
    rwa [(undash_eq_iff hc).mpr hkey]
  · intro h
    obtain ⟨c, t, hname, hc⟩ := hns _ h
    exact ⟨undash key, h, by rw [hname]; exact (undash_eq_iff hc).mp hname⟩

/-- The names of the model options have one dash. -/
theorem names_dash (o : ModelOption) : ∀ n ∈ names o, ∃ c t, n = '-' :: c :: t ∧ c ≠ '-' := by
  cases o <;> simp [names]

/-- So have the options that would override them. -/
theorem overrides_dash : ∀ n ∈ overrides, ∃ c t, n = '-' :: c :: t ∧ c ≠ '-' := by
  simp [overrides]

/-- What the comparisons with the names select. -/
theorem modelKey_eq_some_iff : modelKey key = some o ↔ key ∈ names o := by
  rw [modelKey]
  split_ifs with hmachine hcpu hsmp haccel
  · obtain rfl | rfl := hmachine <;> cases o <;> decide
  · subst hcpu
    cases o <;> decide
  · subst hsmp
    cases o <;> decide
  · subst haccel
    cases o <;> decide
  · refine iff_of_false not_false fun hkey => ?_
    cases o <;> simp only [names, List.mem_cons, List.not_mem_nil, or_false] at hkey
    · exact hmachine hkey
    · exact hcpu hkey
    · exact hsmp hkey
    · exact haccel hkey

/-- The gate finds an option by any of its spellings. -/
theorem modelKey_undash_iff : modelKey (undash key) = some o ↔ Spells (names o) key := by
  rw [modelKey_eq_some_iff, spells_iff (names_dash o)]

/-- It finds none exactly if no option is spelled. -/
theorem modelKey_undash_eq_none_iff :
    modelKey (undash key) = none ↔ ∀ o, ¬Spells (names o) key := by
  rw [Option.eq_none_iff_forall_not_mem]
  exact forall_congr' fun o => not_congr modelKey_undash_iff

/-- It finds an override by any of its spellings. -/
theorem forbiddenKey_undash_iff : forbiddenKey (undash key) = true ↔ Spells overrides key := by
  rw [spells_iff overrides_dash]
  simp [forbiddenKey, overrides, or_assoc]

/-- No text is the name of two options. -/
theorem Spells.unique (h : Spells (names o) key) (h' : Spells (names o') key) : o = o' :=
  Option.some.inj ((modelKey_undash_iff.mpr h).symm.trans (modelKey_undash_iff.mpr h'))

/-- No spelling has an equals sign. -/
theorem Spells.not_mem (h : Spells (names o) key) : '=' ∉ key := by
  obtain ⟨n, hn, hkey⟩ := h
  have hname : '=' ∉ n := by
    cases o <;> simp only [names, List.mem_cons, List.not_mem_nil, or_false] at hn
    · obtain rfl | rfl := hn <;> decide
    all_goals subst hn; decide
  obtain rfl | rfl := hkey
  · exact hname
  · simpa using hname

/-- An option that overrides the model is no model option. -/
theorem Spells.not_override (h : Spells (names o) key) : ¬Spells overrides key := by
  intro hover
  rw [spells_iff overrides_dash] at hover
  rw [spells_iff (names_dash o)] at h
  generalize undash key = key at h hover
  simp only [overrides, List.mem_cons, List.not_mem_nil, or_false] at hover
  obtain rfl | rfl | rfl := hover <;> cases o <;> revert h <;> decide

/-- An element with a value of its own. -/
theorem eq_append_of_find_undash {equal : ℕ} (h : find (undash arg) '=' 0 = some equal) :
    arg = keyOf arg ++ '=' :: substr (undash arg) (equal + 1) none := by
  have hcut : undash arg = keyOf (undash arg) ++ '=' :: substr (undash arg) (equal + 1) none :=
    eq_of_find h
  rw [keyOf_undash] at hcut
  obtain ⟨t, rfl⟩ | hdash := undash_cases arg
  · rw [keyOf_cons_dash, keyOf_cons_dash, undash_dashes, ← keyOf_cons_dash] at hcut
    rw [keyOf_cons_dash, List.cons_append]
    exact congrArg _ hcut
  · have hkey : undash (keyOf arg) = keyOf arg := by
      rw [← keyOf_undash, undash_of_not hdash]
    rw [hkey] at hcut
    exact (undash_of_not hdash).symm.trans hcut

/-- Without an equals sign the argument is its key. -/
theorem keyOf_of_find_undash (h : find (undash arg) '=' 0 = none) : keyOf arg = arg := by
  refine keyOf_of_not_mem fun hmem => find_eq_none_iff.mp h ?_
  obtain ⟨t, rfl⟩ | hdash := undash_cases arg
  · rw [undash_dashes, List.drop_zero]
    exact (List.mem_cons.mp hmem).resolve_left (by decide)
  · rwa [undash_of_not hdash]

end

/-! ### The reading -/

section

variable {arg value : List Char} {args rest before after : List (List Char)}
  {items tail : List Item} {o : ModelOption}

/-- An element that is no model option. -/
theorem reads_other_iff (harg : ∀ o, ¬Spells (names o) (keyOf arg)) :
    Reads (arg :: rest) items ↔ ∃ tail, items = .other arg :: tail ∧ Reads rest tail := by
  constructor
  · intro h
    cases h with
    | joined hkey h => exact absurd (by rwa [keyOf_append hkey.not_mem]) (harg _)
    | separate hkey h => exact absurd (by rwa [keyOf_of_not_mem hkey.not_mem]) (harg _)
    | other hkey h => exact ⟨_, rfl, h⟩
  · rintro ⟨tail, rfl, h⟩
    exact .other harg h

/-- An option with its value after `=`. -/
theorem reads_joined_iff {key : List Char} (hkey : Spells (names o) key) :
    Reads ((key ++ '=' :: value) :: rest) items ↔
      ∃ tail, items = .model o value :: tail ∧ Reads rest tail := by
  constructor
  · intro h
    generalize harg : key ++ '=' :: value = arg at h
    cases h with
    | joined hkey' h =>
        obtain ⟨rfl, rfl⟩ := append_cons_inj hkey.not_mem hkey'.not_mem harg
        obtain rfl := hkey.unique hkey'
        exact ⟨_, rfl, h⟩
    | separate hkey' h => exact absurd (by simp [← harg]) hkey'.not_mem
    | other hkey' h =>
        rw [← harg, keyOf_append hkey.not_mem] at hkey'
        exact absurd hkey (hkey' o)
  · rintro ⟨tail, rfl, h⟩
    exact .joined hkey h

/-- An option with its value in the next element. -/
theorem reads_separate_iff (hkey : Spells (names o) arg) :
    Reads (arg :: value :: rest) items ↔
      ∃ tail, items = .model o value :: tail ∧ Reads rest tail := by
  constructor
  · intro h
    cases h with
    | joined hkey' h => exact absurd (by simp) hkey.not_mem
    | separate hkey' h =>
        obtain rfl := hkey.unique hkey'
        exact ⟨_, rfl, h⟩
    | other hkey' h =>
        rw [keyOf_of_not_mem hkey.not_mem] at hkey'
        exact absurd hkey (hkey' o)
  · rintro ⟨tail, rfl, h⟩
    exact .separate hkey h

/-- An option without a value. -/
theorem not_reads_missing (hkey : Spells (names o) arg) : ¬Reads [arg] items := by
  intro h
  cases h with
  | joined hkey' h => exact absurd (by simp) hkey.not_mem
  | other hkey' h =>
      rw [keyOf_of_not_mem hkey.not_mem] at hkey'
      exact hkey' o hkey

/-- A list that goes on after an item and after more. -/
theorem exists_cons_append_iff {item : Item} {all : List Item} {p : List Item → Prop} :
    (∃ left, all = item :: left ∧ ∃ tail, left = items ++ tail ∧ p tail) ↔
      ∃ tail, all = item :: items ++ tail ∧ p tail := by
  constructor
  · rintro ⟨_, rfl, tail, rfl, h⟩
    exact ⟨tail, rfl, h⟩
  · rintro ⟨tail, rfl, h⟩
    exact ⟨_, rfl, tail, rfl, h⟩

/-- A list has one reading at most, and what follows a complete list is read on its own. -/
theorem Reads.append_iff (h : Reads before items) {all : List Item} :
    Reads (before ++ after) all ↔ ∃ tail, all = items ++ tail ∧ Reads after tail := by
  induction h generalizing all with
  | nil => simp
  | joined hkey h ih =>
      rw [List.cons_append, reads_joined_iff hkey]
      simp only [ih]
      exact exists_cons_append_iff
  | separate hkey h ih =>
      rw [List.cons_append, List.cons_append, reads_separate_iff hkey]
      simp only [ih]
      exact exists_cons_append_iff
  | other hkey h ih =>
      rw [List.cons_append, reads_other_iff hkey]
      simp only [ih]
      exact exists_cons_append_iff

/-- An argument list is read in one way. -/
theorem Reads.unique (h : Reads args items) (h' : Reads args tail) : tail = items := by
  rw [← List.append_nil args, h.append_iff] at h'
  obtain ⟨rest, rfl, hrest⟩ := h'
  cases hrest
  exact List.append_nil items

/-- The values of two parts are those of the whole. -/
theorem valuesOf_append (o : ModelOption) (items tail : List Item) :
    valuesOf o (items ++ tail) = valuesOf o items ++ valuesOf o tail := by
  induction items with
  | nil => rfl
  | cons item items ih =>
      cases item with
      | model o' value =>
          by_cases ho : o' = o <;> simp [valuesOf, ho, ih]
      | other arg => exact ih

/-- A value is listed if its option was read. -/
theorem mem_valuesOf : value ∈ valuesOf o items ↔ .model o value ∈ items := by
  induction items with
  | nil => simp [valuesOf]
  | cons item items ih =>
      cases item with
      | model o' value' =>
          by_cases ho : o' = o
          · subst ho
            simp [valuesOf, ih]
          · simp [valuesOf, ho, Ne.symm ho, ih]
      | other arg => simp [valuesOf, ih]

end

/-! ### The loop and the reading -/

section

variable {vcpus : UInt32} {machineName value arg : List Char} {args rest : List (List Char)}
  {seen seen' : ModelOption → Bool} {items : List Item} {o : ModelOption}

/-- The tests of a machine value: no property after a comma sets the type or the accelerator, and
the first field has no `=`. -/
theorem isMachine_iff (hname : IsName machineName) : IsMachine machineName value ↔
    substr value 0 (find value ',' 0) = machineName ∧ findText value ",type=".toList = none ∧
      findText value ",accel=".toList = none := by
  have hsets : ∀ key : List Char, ',' ∉ key → value.takeWhile (· != ',') = machineName →
      (¬Sets key value ↔ findText value (',' :: (key ++ ['='])) = none) := by
    intro key hkey hfirst
    rw [findText_eq_none_iff]
    constructor
    · rintro h l r rfl
      exact h (Or.inr ⟨l, r, by simp⟩)
    · rintro h (⟨r, rfl⟩ | ⟨l, r, rfl⟩)
      · have hall : ∀ x ∈ key ++ ['='], (x != ',') = true := by
          rintro x hx
          rw [List.mem_append, List.mem_singleton] at hx
          obtain hx | rfl := hx
          · exact bne_iff_ne.mpr (ne_of_mem_of_not_mem hx hkey)
          · decide
        have hmem : '=' ∈ machineName := by
          rw [← hfirst, List.append_cons, List.takeWhile_append_of_pos hall]
          simp
        exact hname.2 '=' (by decide) hmem
      · exact h l r (by simp)
  rw [IsMachine, substr_find]
  constructor
  · rintro ⟨hfirst, htype, haccel⟩
    exact ⟨hfirst, (hsets _ (by decide) hfirst).mp htype, (hsets _ (by decide) hfirst).mp haccel⟩
  · rintro ⟨hfirst, htype, haccel⟩
    exact ⟨hfirst, (hsets _ (by decide) hfirst).mpr htype, (hsets _ (by decide) hfirst).mpr haccel⟩

/-- A guard of the gate passes exactly if its condition holds. -/
theorem guard_eq_ok_iff {bad : Bool} {p : Prop} {e : String} {s t : ModelOption → Bool}
    (h : bad = false ↔ p) : (if bad then Except.error e else .ok s) = .ok t ↔ p ∧ t = s := by
  cases bad with
  | true => exact iff_of_false (by simp) fun hp => absurd (h.mpr hp.1) (by decide)
  | false =>
      rw [if_neg Bool.false_ne_true, Except.ok.injEq, and_iff_right (h.mp rfl)]
      exact eq_comm

/-- An option passes once, with a value the contract allows. -/
theorem checkValue_eq_ok_iff (hname : IsName machineName) :
    checkValue vcpus machineName seen o value = .ok seen' ↔
      seen o = false ∧ Allowed vcpus machineName o value ∧
        seen' = Function.update seen o true := by
  rw [← and_assoc]
  cases o with
  | machine =>
      refine guard_eq_ok_iff ?_
      rw [Allowed, isMachine_iff hname]
      simp only [Bool.or_eq_false_iff, bne_eq_false_iff_eq, Option.isSome_eq_false_iff,
        Option.isNone_iff_eq_none, and_assoc]
  | cpu =>
      refine guard_eq_ok_iff ?_
      rw [Bool.or_eq_false_iff, bne_eq_false_iff_eq, Allowed]
  | smp =>
      refine guard_eq_ok_iff ?_
      rw [Bool.or_eq_false_iff, bne_eq_false_iff_eq, Allowed]
  | accel =>
      refine guard_eq_ok_iff ?_
      rw [Bool.or_eq_false_iff, Bool.and_eq_false_iff, bne_eq_false_iff_eq, Bool.not_eq_false',
        Bool.and_eq_true, beq_iff_eq, beq_iff_eq, Allowed, SingleThread]

/-- The items take the loop from some flags to others: each option that is found sets its flag, and
finds it clear. -/
structure Passes (vcpus : UInt32) (machineName : List Char) (seen : ModelOption → Bool)
    (items : List Item) (seen' : ModelOption → Bool) : Prop where
  allowed : ∀ o, ∀ value ∈ valuesOf o items, Allowed vcpus machineName o value
  no_override : ∀ arg, .other arg ∈ items → ¬Spells overrides (keyOf arg)
  flags : ∀ o, (seen o).toNat + (valuesOf o items).length = (seen' o).toNat

/-- At the end nothing is left to check. -/
theorem passes_nil : Passes vcpus machineName seen [] seen' ↔ seen' = seen := by
  constructor
  · intro h
    funext o
    have := h.flags o
    cases ho : seen o <;> cases ho' : seen' o <;> simp_all [valuesOf]
  · rintro rfl
    exact ⟨by simp [valuesOf], by simp, fun _ => rfl⟩

/-- An argument that is no model option must not override one. -/
theorem passes_other : Passes vcpus machineName seen (.other arg :: items) seen' ↔
    ¬Spells overrides (keyOf arg) ∧ Passes vcpus machineName seen items seen' := by
  constructor
  · rintro ⟨hallowed, hover, hflags⟩
    exact ⟨hover arg List.mem_cons_self, hallowed, fun a ha => hover a (List.mem_cons_of_mem _ ha),
      hflags⟩
  · rintro ⟨harg, hallowed, hover, hflags⟩
    refine ⟨hallowed, fun a ha => ?_, hflags⟩
    obtain ha | ha := List.mem_cons.mp ha
    · cases ha
      exact harg
    · exact hover a ha

/-- A model option must be new and have an allowed value. -/
theorem passes_model : Passes vcpus machineName seen (.model o value :: items) seen' ↔
    seen o = false ∧ Allowed vcpus machineName o value ∧
      Passes vcpus machineName (Function.update seen o true) items seen' := by
  have hvalues : ∀ p, valuesOf p (.model o value :: items) =
      if o = p then value :: valuesOf p items else valuesOf p items := fun _ => rfl
  have hupdate : ∀ p,
      (Function.update seen o true p).toNat = if o = p then 1 else (seen p).toNat := by
    intro p
    by_cases hp : o = p
    · subst hp
      simp
    · rw [Function.update_of_ne (Ne.symm hp), if_neg hp]
  constructor
  · rintro ⟨hallowed, hover, hflags⟩
    have hclear : seen o = false := by
      have := hflags o
      rw [hvalues, if_pos rfl, List.length_cons] at this
      have hle := Bool.toNat_le (seen' o)
      exact Bool.toNat_eq_zero.mp (by omega)
    refine ⟨hclear, hallowed o value (by simp [hvalues]), fun p v hv => ?_,
      fun a ha => hover a (List.mem_cons_of_mem _ ha), fun p => ?_⟩
    · refine hallowed p v ?_
      rw [hvalues]
      split_ifs
      · exact List.mem_cons_of_mem _ hv
      · exact hv
    · have := hflags p
      rw [hvalues] at this
      rw [hupdate]
      split_ifs at this ⊢ with hp
      · subst hp
        rw [hclear, List.length_cons, Bool.toNat_false] at this
        omega
      · exact this
  · rintro ⟨hclear, hvalue, hallowed, hover, hflags⟩
    refine ⟨fun p v hv => ?_, fun a ha => ?_, fun p => ?_⟩
    · rw [hvalues] at hv
      split_ifs at hv with hp
      · subst hp
        obtain rfl | hv := List.mem_cons.mp hv
        · exact hvalue
        · exact hallowed o v hv
      · exact hallowed p v hv
    · exact hover a ((List.mem_cons.mp ha).resolve_left (by simp))
    · have := hflags p
      rw [hupdate] at this
      rw [hvalues]
      split_ifs at this ⊢ with hp
      · subst hp
        rw [hclear, List.length_cons, Bool.toNat_false]
        omega
      · exact this

/-- The scanner's key is the key of the element, less a dash. -/
theorem substr_find_undash (arg : List Char) :
    substr (undash arg) 0 (find (undash arg) '=' 0) = undash (keyOf arg) :=
  (substr_find _ _).trans (keyOf_undash arg)

/-- Reading past an option is checking its value. -/
theorem exists_passes_model (hname : IsName machineName)
    (hread : ∀ items, Reads args items ↔
      ∃ tail, items = .model o value :: tail ∧ Reads rest tail) :
    (∃ items, Reads args items ∧ Passes vcpus machineName seen items seen') ↔
      ∃ s, checkValue vcpus machineName seen o value = .ok s ∧
        ∃ tail, Reads rest tail ∧ Passes vcpus machineName s tail seen' := by
  simp only [hread, checkValue_eq_ok_iff hname]
  constructor
  · rintro ⟨_, ⟨tail, rfl, htail⟩, hpass⟩
    obtain ⟨hclear, hvalue, hpass⟩ := passes_model.mp hpass
    exact ⟨_, ⟨hclear, hvalue, rfl⟩, tail, htail, hpass⟩
  · rintro ⟨_, ⟨hclear, hvalue, rfl⟩, tail, htail, hpass⟩
    exact ⟨_, ⟨tail, rfl, htail⟩, passes_model.mpr ⟨hclear, hvalue, hpass⟩⟩

/-- Reading past any other element is looking for an override. -/
theorem exists_passes_other (harg : ∀ o, ¬Spells (names o) (keyOf arg)) :
    (∃ items, Reads (arg :: rest) items ∧ Passes vcpus machineName seen items seen') ↔
      ¬Spells overrides (keyOf arg) ∧
        ∃ tail, Reads rest tail ∧ Passes vcpus machineName seen tail seen' := by
  simp only [reads_other_iff harg]
  constructor
  · rintro ⟨_, ⟨tail, rfl, htail⟩, hpass⟩
    obtain ⟨hover, hpass⟩ := passes_other.mp hpass
    exact ⟨hover, tail, htail, hpass⟩
  · rintro ⟨hover, tail, htail, hpass⟩
    exact ⟨_, ⟨tail, rfl, htail⟩, passes_other.mpr ⟨hover, hpass⟩⟩

/-- **The loop accepts exactly the lists with a reading whose items it lets pass.** -/
theorem gateLoop_eq_ok_iff (hname : IsName machineName) :
    gateLoop vcpus machineName seen args = .ok seen' ↔
      ∃ items, Reads args items ∧ Passes vcpus machineName seen items seen' := by
  fun_induction gateLoop vcpus machineName seen args with
  | case1 seen =>
      rw [Except.ok.injEq]
      constructor
      · rintro rfl
        exact ⟨[], .nil, passes_nil.mpr rfl⟩
      · rintro ⟨items, h, hpass⟩
        cases h
        exact (passes_nil.mp hpass).symm
  | case2 seen arg rest option equal key hforbidden =>
      have hscan : key = undash (keyOf arg) := substr_find_undash arg
      -- an override is no model option, and its reading stops the items
      rw [hscan, forbiddenKey_undash_iff] at hforbidden
      rw [exists_passes_other fun o ho => ho.not_override hforbidden]
      exact iff_of_false (by simp) fun h => h.1 hforbidden
  | case3 seen arg rest option equal key hforbidden hkey ih =>
      have hscan : key = undash (keyOf arg) := substr_find_undash arg
      rw [hscan, forbiddenKey_undash_iff] at hforbidden
      rw [hscan, modelKey_undash_eq_none_iff] at hkey
      rw [exists_passes_other hkey, and_iff_right hforbidden]
      exact ih
  | case4 seen arg option found key hforbidden o hkey equal rest hequal seen₁ hcheck ih =>
      have hscan : key = undash (keyOf arg) := substr_find_undash arg
      rw [hscan, modelKey_undash_iff] at hkey
      rw [eq_append_of_find_undash hequal,
        exists_passes_model hname fun _ => reads_joined_iff hkey, hcheck]
      simpa using ih
  | case5 seen arg option found key hforbidden o hkey equal rest hequal e hcheck =>
      have hscan : key = undash (keyOf arg) := substr_find_undash arg
      rw [hscan, modelKey_undash_iff] at hkey
      rw [eq_append_of_find_undash hequal,
        exists_passes_model hname fun _ => reads_joined_iff hkey, hcheck]
      simp
  | case6 seen arg option equal key hforbidden o hkey value rest hequal seen₁ hcheck ih =>
      have hscan : key = undash (keyOf arg) := substr_find_undash arg
      rw [hscan, modelKey_undash_iff, keyOf_of_find_undash hequal] at hkey
      rw [exists_passes_model hname fun _ => reads_separate_iff hkey, hcheck]
      simpa using ih
  | case7 seen arg option equal key hforbidden o hkey value rest hequal e hcheck =>
      have hscan : key = undash (keyOf arg) := substr_find_undash arg
      rw [hscan, modelKey_undash_iff, keyOf_of_find_undash hequal] at hkey
      rw [exists_passes_model hname fun _ => reads_separate_iff hkey, hcheck]
      simp
  | case8 seen arg option equal key hforbidden o hkey hequal =>
      have hscan : key = undash (keyOf arg) := substr_find_undash arg
      rw [hscan, modelKey_undash_iff, keyOf_of_find_undash hequal] at hkey
      exact iff_of_false (by simp) fun ⟨_, h, _⟩ => not_reads_missing hkey h

/-- The gate admits one or two CPUs. -/
theorem cpus_iff : ¬(decide (vcpus < 1) || decide (vcpus > 2)) = true ↔ vcpus = 1 ∨ vcpus = 2 := by
  rw [Bool.or_eq_true, decide_eq_true_eq, decide_eq_true_eq, gt_iff_lt, UInt32.lt_iff_toNat_lt,
    UInt32.lt_iff_toNat_lt, ← UInt32.toNat_inj, ← UInt32.toNat_inj]
  change ¬(vcpus.toNat < 1 ∨ 2 < vcpus.toNat) ↔ vcpus.toNat = 1 ∨ vcpus.toNat = 2
  omega

/-- It admits machine names without separators. -/
theorem isName_iff :
    ¬(machineName.isEmpty || machineName.any (", \t\n=".toList.contains ·)) = true ↔
      IsName machineName := by
  rw [Bool.or_eq_true, not_or, List.isEmpty_iff, List.any_eq_true, IsName]
  refine and_congr_right fun _ => ?_
  constructor
  · intro h c hc hmem
    exact h ⟨c, hmem, List.contains_iff_mem.mpr hc⟩
  · rintro h ⟨c, hmem, hc⟩
    exact h c (List.contains_iff_mem.mp hc) hmem

/-- Each flag says whether the option was found, and none was found twice. -/
theorem passes_clear_iff : Passes vcpus machineName (fun _ => false) items seen' ↔
    (∀ o, ∀ value ∈ valuesOf o items, Allowed vcpus machineName o value) ∧
      (∀ arg, .other arg ∈ items → ¬Spells overrides (keyOf arg)) ∧
      (∀ o, (valuesOf o items).length ≤ 1) ∧ ∀ o, seen' o = true ↔ valuesOf o items ≠ [] := by
  have hflag : ∀ o, (valuesOf o items).length = (seen' o).toNat ↔
      (valuesOf o items).length ≤ 1 ∧ (seen' o = true ↔ valuesOf o items ≠ []) := by
    intro o
    rw [← List.length_pos_iff]
    cases seen' o <;> simp only [Bool.toNat_false, Bool.toNat_true] <;> grind
  constructor
  · rintro ⟨hallowed, hover, hflags⟩
    have hflags : ∀ o, (valuesOf o items).length = (seen' o).toNat := by simpa using hflags
    exact ⟨hallowed, hover, fun o => ((hflag o).mp (hflags o)).1,
      fun o => ((hflag o).mp (hflags o)).2⟩
  · rintro ⟨hallowed, hover, honce, hseen⟩
    exact ⟨hallowed, hover, fun o => by simpa using (hflag o).mpr ⟨honce o, hseen o⟩⟩

/-- **The gate accepts exactly the lists whose reading keeps the contract.** -/
theorem coldFireLaunchError_eq_none_iff : coldFireLaunchError args vcpus machineName = none ↔
    ∃ items, Reads args items ∧ Contract vcpus machineName items := by
  rw [coldFireLaunchError]
  by_cases hcpus : vcpus = 1 ∨ vcpus = 2
  swap
  · rw [if_pos (not_not.mp (mt cpus_iff.mp hcpus))]
    exact iff_of_false (by simp) fun ⟨_, _, h⟩ => hcpus h.cpus
  rw [if_neg (cpus_iff.mpr hcpus)]
  by_cases hname : IsName machineName
  swap
  · rw [if_pos (not_not.mp (mt isName_iff.mp hname))]
    exact iff_of_false (by simp) fun ⟨_, _, h⟩ => hname h.name
  rw [if_neg (isName_iff.mpr hname)]
  cases hloop : gateLoop vcpus machineName (fun _ => false) args with
  | error e =>
      refine iff_of_false (by simp) fun ⟨items, hread, h⟩ => ?_
      have hpass : Passes vcpus machineName (fun _ => false) items
          fun o => decide (valuesOf o items ≠ []) :=
        passes_clear_iff.mpr ⟨h.allowed, h.no_override, h.once, fun o => decide_eq_true_iff⟩
      rw [(gateLoop_eq_ok_iff hname).mpr ⟨items, hread, hpass⟩] at hloop
      cases hloop
  | ok seen =>
      obtain ⟨items, hread, hpass⟩ := (gateLoop_eq_ok_iff hname).mp hloop
      obtain ⟨hallowed, hover, honce, hseen⟩ := passes_clear_iff.mp hpass
      have hclear : ∀ o, (!seen o) = true ↔ valuesOf o items = [] := by
        intro o
        rw [Bool.not_eq_true', ← Bool.not_eq_true, hseen, not_not]
      simp only [Bool.and_eq_true, Bool.or_eq_true, hclear, beq_iff_eq]
      constructor
      · intro h
        split_ifs at h with hmachine htwo
        exact ⟨items, hread, hcpus, hname, hallowed, hover, honce, hmachine,
          fun htwo' => not_or.mp fun hmissing => htwo ⟨htwo', hmissing⟩⟩
      · rintro ⟨items', hread', h⟩
        obtain rfl := hread.unique hread'
        rw [if_neg h.machine, if_neg fun htwo => (not_or.mpr (h.two htwo.1)) htwo.2]

end

end Quetz.Launch
