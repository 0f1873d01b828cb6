import MDesk.Config.Endpoints

/-!
# Layers of options

An option is what the settings of the client overwrite, else what the user has set, else a
default. The layers are read one key at a time or all at once, and the user's options are set in
both ways too. Reading agrees in both ways. Setting agrees but for empty values: the one way takes
them for no value, the other one keeps them.
-/

namespace MDesk

open MDesk.Core
open MDesk.Endpoint (canonicalServer canonicalOption migrateOptions)

/-- The layers of options, and the options in the configuration file. -/
structure OptionLayers where
  overwriteSettings : Table String String
  defaultSettings : Table String String
  options : Table String String := ∅
  file : Table String String := ∅

namespace OptionLayers

def isOptionCanSave (s : OptionLayers) (k v : String) : Bool :=
  if (s.overwriteSettings.get k).isSome then false
  else if k = "allow-auto-record-incoming" ∨ k = "allow-auto-record-outgoing" then true
  else s.defaultSettings.get k ≠ some v

def getOr (s : OptionLayers) (k : String) : Option String :=
  ((s.overwriteSettings.get k).or (s.options.get k)).or (s.defaultSettings.get k)

def getOptions (s : OptionLayers) : Table String String :=
  (migrateOptions ((s.defaultSettings.extend s.options).extend s.overwriteSettings)).1

def getOption (s : OptionLayers) (k : String) : String := canonicalOption k ((s.getOr k).getD "")

/-- Take the options over and write them to the file. -/
def store (s : OptionLayers) (options : Table String String) : OptionLayers :=
  { s with options, file := options }

def purifyOptions (s : OptionLayers) (v : Table String String) : Table String String :=
  v.retain s.isOptionCanSave

/-- What `set_options` takes over of a map. An empty `key` is taken over in any case. -/
def optionsToStore (s : OptionLayers) (v : Table String String) : Table String String :=
  let migrated := (migrateOptions v).1
  let purified := s.purifyOptions migrated
  if migrated.get "key" = some "" ∧ (purified.get "key").isNone then purified.insert "key" ""
  else purified

def setOptions (s : OptionLayers) (v : Table String String) : OptionLayers :=
  if s.options.entries.Perm (s.optionsToStore v).entries then s
  else s.store (s.optionsToStore v)

def setOption (s : OptionLayers) (k v : String) : OptionLayers :=
  let v := canonicalOption k v
  if k ≠ "key" ∧ s.isOptionCanSave k v = false then
    if (s.options.get k).isSome then s.store (s.options.remove k) else s
  else
    let v2 := if v = "" ∧ k ≠ "key" then none else some v
    if v2 ≠ s.options.get k then
      s.store (if v2.isNone then s.options.remove k else s.options.insert k v)
    else s

/-- Set the entries of a map, one after the other. -/
def setEach (s : OptionLayers) (es : List (Sigma fun _ : String => String)) : OptionLayers :=
  es.foldl (fun s e => s.setOption e.1 e.2) s

end OptionLayers

/-! ## Empty values -/

namespace Endpoint

theorem canonicalServer_eq_empty {value : String} : canonicalServer value = "" ↔ value = "" := by
  constructor
  · intro h
    rcases canonicalServer_cases value with ⟨-, -, heq⟩ | heq
    · rw [heq] at h
      have hlist := congrArg String.toList h
      simp [serverHost] at hlist
    · rwa [heq] at h
  · rintro rfl
    decide

theorem canonicalOption_eq_empty {key value : String} :
    canonicalOption key value = "" ↔ value = "" := by
  unfold canonicalOption
  split_ifs
  · exact canonicalServer_eq_empty
  · constructor
    · intro h
      have hlist := congrArg String.toList h
      rw [String.toList_ofList] at hlist
      have hback : [','].intercalate (value.toList.splitOn ',') = value.toList :=
        List.intercalate_splitOn ','
      match hservers : value.toList.splitOn ',' with
      | [] => exact absurd hservers (List.splitOn_ne_nil _ _)
      | [server] =>
        rw [hservers] at hlist hback
        have hserver : (canonicalServer (String.ofList server)).toList = [] := by
          simpa [List.intercalate] using hlist
        have hempty := canonicalServer_eq_empty.mp (String.toList_eq_nil_iff.mp hserver)
        have hnil : server = [] := by simpa using congrArg String.toList hempty
        rw [hnil] at hback
        exact String.toList_eq_nil_iff.mp hback.symm
      | server :: second :: servers =>
        rw [hservers] at hlist
        simp [List.intercalate] at hlist
    · rintro rfl
      decide
  · rfl

end Endpoint

namespace OptionLayers

variable {s : OptionLayers} {k k' v : String} {m : Table String String}
  {es : List (Sigma fun _ : String => String)}

/-! ## Reading -/

/-- Reading all options at once and one option agree. -/
theorem getOptions_get (s : OptionLayers) (k : String) :
    ((s.getOptions.get k).getD "") = s.getOption k := by
  have hlayers : ((s.defaultSettings.extend s.options).extend s.overwriteSettings).get k =
      s.getOr k := by
    rw [Table.get_extend, Table.get_extend, getOr, Option.or_assoc]
  rw [getOptions, migrateOptions, Table.get_mapWithKey, hlayers, getOption]
  cases s.getOr k with
  | none => exact (Endpoint.canonicalOption_eq_empty.mpr rfl).symm
  | some v => rfl

/-! ## Setting -/

/-- What an empty layer has of a key behind `setOptions`. -/
def savedTogether (s : OptionLayers) (m : Table String String) (k : String) : Option String :=
  if k = "key" ∧ m.get k = some "" then some ""
  else ((m.get k).map (canonicalOption k)).filter (s.isOptionCanSave k)

/-- What an empty layer has of a key behind `setOption`. -/
def savedAlone (s : OptionLayers) (k v : String) : Option String :=
  if k ≠ "key" ∧ (v = "" ∨ s.isOptionCanSave k (canonicalOption k v) = false) then none
  else some (canonicalOption k v)

theorem canonicalOption_key (v : String) : canonicalOption "key" v = v := rfl

theorem get_optionsToStore : (s.optionsToStore m).get k = s.savedTogether m k := by
  have hmigrated : ∀ k, (migrateOptions m).1.get k = (m.get k).map (canonicalOption k) :=
    fun _ => Table.get_mapWithKey canonicalOption
  have hpurified : ∀ k, (s.purifyOptions (migrateOptions m).1).get k =
      ((m.get k).map (canonicalOption k)).filter (s.isOptionCanSave k) := by
    intro k
    rw [purifyOptions, Table.get_retain, hmigrated]
  have hkey : (migrateOptions m).1.get "key" = m.get "key" := by
    rw [hmigrated]
    cases m.get "key" <;> rfl
  rw [savedTogether, ← hpurified, optionsToStore]
  by_cases hk : k = "key"
  · subst hk
    by_cases hempty : m.get "key" = some ""
    · rw [hkey, hempty, if_pos (c := "key" = "key" ∧ _) ⟨rfl, rfl⟩]
      have hget := hpurified "key"
      rw [hempty, Option.map_some, canonicalOption_key] at hget
      cases hsave : s.isOptionCanSave "key" "" with
      | true =>
        have hsome : (s.purifyOptions (migrateOptions m).1).get "key" = some "" := by
          rw [hget, Option.filter_some_pos hsave]
        rw [if_neg (by simp [hsome]), hsome]
      | false =>
        have hnone : (s.purifyOptions (migrateOptions m).1).get "key" = none := by
          rw [hget, Option.filter_some_neg (by simp [hsave])]
        rw [if_pos ⟨rfl, by simp [hnone]⟩, Table.get_insert_self]
    · rw [hkey, if_neg (fun h => hempty h.1), if_neg (fun h => hempty h.2)]
  · rw [if_neg (c := k = "key" ∧ _) (fun h => hk h.1)]
    split
    · exact Table.get_insert_ne hk
    · rfl

theorem get_setOptions : (s.setOptions m).options.get k = s.savedTogether m k := by
  rw [← get_optionsToStore, setOptions]
  split
  case isTrue hperm => exact AList.perm_lookup hperm
  case isFalse => rfl

/-- One option is set and the others are left alone. -/
theorem get_setOption : (s.setOption k v).options.get k' =
    if k' = k then s.savedAlone k v else s.options.get k' := by
  have hkeep : ∀ {saved : Option String}, s.options.get k = saved →
      s.options.get k' = if k' = k then saved else s.options.get k' := by
    rintro _ rfl
    split
    case isTrue heq => rw [heq]
    case isFalse => rfl
  by_cases hdrop : k ≠ "key" ∧ s.isOptionCanSave k (canonicalOption k v) = false
  · have hsaved : s.savedAlone k v = none := if_pos ⟨hdrop.1, .inr hdrop.2⟩
    have hset : s.setOption k v =
        if (s.options.get k).isSome then s.store (s.options.remove k) else s := if_pos hdrop
    rw [hset, hsaved]
    by_cases hsome : (s.options.get k).isSome
    · rw [if_pos hsome]
      exact Table.get_remove
    · rw [if_neg hsome]
      exact hkeep (Option.not_isSome_iff_eq_none.mp hsome)
  · have hsaved : s.savedAlone k v =
        if canonicalOption k v = "" ∧ k ≠ "key" then none else some (canonicalOption k v) := by
      apply if_congr _ rfl rfl
      rw [Endpoint.canonicalOption_eq_empty]
      tauto
    have hset : s.setOption k v =
        if s.savedAlone k v ≠ s.options.get k then
          s.store (if (s.savedAlone k v).isNone then s.options.remove k
            else s.options.insert k (canonicalOption k v))
        else s := by
      rw [hsaved]
      exact if_neg hdrop
    rw [hset]
    by_cases hsame : s.savedAlone k v ≠ s.options.get k
    · rw [if_pos hsame]
      by_cases hempty : canonicalOption k v = "" ∧ k ≠ "key"
      · rw [hsaved, if_pos hempty]
        exact Table.get_remove
      · rw [hsaved, if_neg hempty]
        exact Table.get_insert
    · rw [if_neg hsame]
      exact hkeep (not_not.mp hsame).symm

/-- The layers that are not the user's. -/
def fixedLayers (s : OptionLayers) : Table String String × Table String String :=
  (s.overwriteSettings, s.defaultSettings)

@[simp] theorem fixedLayers_setOptions : (s.setOptions m).fixedLayers = s.fixedLayers := by
  unfold setOptions
  split <;> rfl

@[simp] theorem fixedLayers_setOption : (s.setOption k v).fixedLayers = s.fixedLayers := by
  unfold setOption
  dsimp only
  split_ifs <;> rfl

@[simp] theorem fixedLayers_setEach : (s.setEach es).fixedLayers = s.fixedLayers := by
  induction es generalizing s with
  | nil => rfl
  | cons e es ih => exact ih.trans fixedLayers_setOption

theorem savedAlone_setOption : (s.setOption k v).savedAlone = s.savedAlone := by
  obtain ⟨hover, hdefault⟩ := Prod.mk.inj (fixedLayers_setOption (s := s) (k := k) (v := v))
  unfold savedAlone isOptionCanSave
  rw [hover, hdefault]

/-- The options of a map are set alone, in any order. -/
theorem get_setEach (hes : es.NodupKeys) : (s.setEach es).options.get k =
    (es.dlookup k).elim (s.options.get k) (s.savedAlone k) := by
  induction es generalizing s with
  | nil => rfl
  | cons e es ih =>
    obtain ⟨key, v⟩ := e
    obtain ⟨hfresh, hes'⟩ := List.nodupKeys_cons.mp hes
    have hrest : (s.setEach (⟨key, v⟩ :: es)).options.get k =
        (es.dlookup k).elim ((s.setOption key v).options.get k) (s.savedAlone k) := by
      rw [← savedAlone_setOption (k := key) (v := v)]
      exact ih hes'
    rw [hrest, get_setOption]
    by_cases hk : k = key
    · subst hk
      rw [if_pos rfl, List.dlookup_eq_none.mpr hfresh, List.dlookup_cons_eq]
      rfl
    · rw [if_neg hk, List.dlookup_cons_ne _ _ hk]

/-- An option that nothing overwrites is not saved only if it is the default. -/
theorem default_of_not_save (hover : s.overwriteSettings.get k = none)
    (h : s.isOptionCanSave k v = false) : s.defaultSettings.get k = some v := by
  unfold isOptionCanSave at h
  rw [hover, if_neg (by simp)] at h
  split at h
  case isTrue => cases h
  case isFalse => simpa using h

/-- The value of an option that nothing overwrites. -/
def shown (s : OptionLayers) (k : String) (saved : Option String) : String :=
  canonicalOption k ((saved.or (s.defaultSettings.get k)).getD "")

/-- The two ways of setting an option that nothing overwrites give the same value, unless an empty
value is set where the default is not empty. -/
theorem shown_eq_iff (hover : s.overwriteSettings.get k = none) (v : String) :
    s.shown k (if k = "key" ∧ v = "" then some ""
        else (some (canonicalOption k v)).filter (s.isOptionCanSave k)) =
        s.shown k (s.savedAlone k v) ↔
      (k ≠ "key" → v = "" → (s.defaultSettings.get k).getD "" = "") := by
  cases hsave : s.isOptionCanSave k (canonicalOption k v) with
  | false =>
    -- what is not saved is the default
    have hdefault := default_of_not_save hover hsave
    have hvalue : ∀ saved, saved = none ∨ saved = some (canonicalOption k v) →
        s.shown k saved = canonicalOption k (canonicalOption k v) := by
      rintro saved (rfl | rfl) <;> simp [shown, hdefault]
    refine iff_of_true ?_ ?_
    · rw [hvalue, hvalue]
      · unfold savedAlone
        split
        · exact .inl rfl
        · exact .inr rfl
      · split
        case isTrue hkey =>
          rw [hkey.2, Endpoint.canonicalOption_eq_empty.mpr rfl]
          exact .inr rfl
        case isFalse => exact .inl (Option.filter_some_neg (by simp [hsave]))
    · rintro - rfl
      rw [hdefault, Option.getD_some, Endpoint.canonicalOption_eq_empty]
  | true =>
    rw [Option.filter_some_pos hsave]
    by_cases hv : v = ""
    · subst hv
      by_cases hk : k = "key"
      · subst hk
        exact iff_of_true rfl (fun hne => absurd rfl hne)
      · have hnone : s.savedAlone k "" = none := if_pos ⟨hk, .inl rfl⟩
        rw [if_neg (fun h => hk h.1), hnone, shown, shown,
          Endpoint.canonicalOption_eq_empty.mpr rfl]
        simp only [Option.some_or, Option.getD_some, Option.none_or, hk, ne_eq, not_false_eq_true,
          true_imp_iff]
        rw [Endpoint.canonicalOption_eq_empty.mpr rfl, eq_comm, Endpoint.canonicalOption_eq_empty]
    · have halone : s.savedAlone k v = some (canonicalOption k v) :=
        if_neg (by simp [hv, hsave])
      rw [if_neg (fun h => hv h.2), halone]
      exact iff_of_true rfl fun _ hempty => absurd hempty hv

theorem getOption_of_fixedLayers {s' : OptionLayers} (h : s'.fixedLayers = s.fixedLayers) :
    s'.getOption k =
      (s.overwriteSettings.get k).elim (s.shown k (s'.options.get k)) (canonicalOption k) := by
  obtain ⟨hover, hdefault⟩ := Prod.mk.inj h
  rw [getOption, getOr, hover, hdefault]
  cases s.overwriteSettings.get k <;> rfl

/-- The two ways of setting an option compare as what they save of it. -/
theorem getOption_set_eq_iff (hfresh : s.options = ∅) (hes : es.Perm m.entries) :
    (s.setOptions m).getOption k = (s.setEach es).getOption k ↔
      (k ≠ "key" → s.overwriteSettings.get k = none → m.get k = some "" →
        (s.defaultSettings.get k).getD "" = "") := by
  have hnodup : es.NodupKeys := (List.perm_nodupKeys hes).mpr m.nodupKeys
  rw [getOption_of_fixedLayers fixedLayers_setOptions, getOption_of_fixedLayers fixedLayers_setEach,
    get_setOptions, get_setEach hnodup, ← Table.get_eq_of_perm hes, hfresh, Table.get_empty]
  cases hover : s.overwriteSettings.get k with
  | some v =>
    rw [Option.elim_some, Option.elim_some]
    exact iff_of_true rfl fun _ hnone => by cases hnone
  | none =>
    cases hm : m.get k with
    | none =>
      refine iff_of_true ?_ fun _ _ hsome => by cases hsome
      simp [savedTogether, hm]
    | some v =>
      have hiff := shown_eq_iff hover v
      simpa [savedTogether, hm] using hiff

/-- Reading agrees in both ways, and so does setting from no options, if and only if no option
but `key` is set to an empty value while its default is not empty. -/
theorem layers_agree_iff (overwriteSettings defaultSettings m : Table String String) :
    ((∀ options k,
        ((OptionLayers.mk overwriteSettings defaultSettings options ∅).getOptions.get k).getD "" =
          (OptionLayers.mk overwriteSettings defaultSettings options ∅).getOption k) ∧
      ∀ es : List (Sigma fun _ : String => String), es.Perm m.entries → ∀ k,
        ((OptionLayers.mk overwriteSettings defaultSettings ∅ ∅).setOptions m).getOption k =
          ((OptionLayers.mk overwriteSettings defaultSettings ∅ ∅).setEach es).getOption k) ↔
      ∀ k, k ≠ "key" → overwriteSettings.get k = none → m.get k = some "" →
        (defaultSettings.get k).getD "" = "" := by
  rw [and_iff_right fun options k => getOptions_get _ k]
  constructor
  · intro h k
    exact (getOption_set_eq_iff rfl (List.Perm.refl _)).mp (h m.entries (List.Perm.refl _) k)
  · intro h es hes k
    exact (getOption_set_eq_iff rfl hes).mpr (h k)

/-- An empty value hides the default if it is set with the others, and not if it is set alone. -/
theorem empty_value_differs : ¬ ∀ (defaultSettings m : Table String String) (k : String),
    ((OptionLayers.mk ∅ defaultSettings ∅ ∅).setOptions m).getOption k =
      ((OptionLayers.mk ∅ defaultSettings ∅ ∅).setEach m.entries).getOption k := by
  intro h
  have hset := h ((∅ : Table String String).insert "verification-method" "use-password")
    ((∅ : Table String String).insert "verification-method" "") "verification-method"
  rw [getOption_set_eq_iff rfl (List.Perm.refl _)] at hset
  have hdefault := hset (by decide) Table.get_empty Table.get_insert_self
  rw [Table.get_insert_self] at hdefault
  exact absurd hdefault (by decide)

end OptionLayers

end MDesk
