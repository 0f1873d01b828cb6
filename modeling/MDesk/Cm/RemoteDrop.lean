import MDesk.Server.FileAudit
import MDesk.Transfer.Containment

/-!
# Where a remote drop may lead

`resolve_remote_drop_downloads_path` on path strings, as the platforms read them. The peer
encodes every component of the target on its own; each is decoded once, checked, and pushed
onto the path reached so far.
-/

namespace MDesk

open MDesk.Core

/-- The loop of `resolve_remote_drop_downloads_path`. -/
def pushRemoteDropStrings (P : Platform) (target : String) : List String → Except String String
  | [] => .ok target
  | encoded :: rest =>
    match decodeRemoteDropComponent encoded with
    | .error e => .error e
    | .ok decoded =>
      match validateRemoteDropComponent P decoded with
      | .error e => .error e
      | .ok () => pushRemoteDropStrings P (P.paths.push target decoded) rest

/-- `resolve_remote_drop_downloads_path` on strings: `downloads` and `strict` are what
`get_download_dir` and `get_download_dir_strict` return. -/
def resolveRemoteDropStrings (P : Platform) (downloads : String) (strict : Except String String)
    (path : String) : Except String (Option String) :=
  if deviceRemotePrefix.toList.isPrefixOf path.toList then
    if path ≠ deviceRemoteTarget then .error "Invalid DeviceRemote target"
    else strict.map fun dir => some (P.paths.push dir "DeviceRemote.exe")
  else
    match stripPrefix remoteDropDownloadsPrefix path with
    | none => .ok none
    | some relative =>
      if relative.isEmpty then .error "Invalid remote drop target"
      else (pushRemoteDropStrings P downloads (splitStr (· == '/') relative)).map some

/-- A name that leads from a folder to an entry of it. -/
structure PlainName (P : Platform) (name : String) : Prop where
  ne_empty : name ≠ ""
  ne_dot : name ≠ "."
  ne_parent : name ≠ ".."
  separator : ∀ c ∈ name.toList, c ≠ '/' ∧ c ≠ '\\' ∧ c ≠ '\x00'
  drive : P.paths.splitDrive name.toList = (none, name.toList)

/-- An encoded component and the name that it is decoded to. -/
def DecodesTo (P : Platform) (encoded name : String) : Prop :=
  '/' ∉ encoded.toList ∧ decodeRemoteDropComponent encoded = .ok name ∧ PlainName P name

/-- A path is a folder, followed by the names of at least one encoded component. -/
structure DropsBelow (P : Platform) (dir : String) (encoded : List String) (p : String) :
    Prop where
  ne_nil : encoded ≠ []
  names : ∃ names, List.Forall₂ (DecodesTo P) encoded names ∧
    p = names.foldl P.paths.push dir ∧
    P.paths.components p = P.paths.components dir ++ names.map .normal ∧
    P.paths.normalize p =
      { P.paths.normalize dir with names := (P.paths.normalize dir).names ++ names }

variable {P : Platform} {target name p downloads path : String} {encoded names : List String}
  {strict : Except String String}

/-- A component that passes the check is a plain name. -/
theorem plainName_of_validate (h : validateRemoteDropComponent P name = .ok ()) :
    PlainName P name := by
  unfold validateRemoteDropComponent at h
  split_ifs at h with hdots hsep hwindows
  rw [not_or, not_or] at hdots
  have hchars (c : Char) (hc : c ∈ name.toList) : c ≠ '/' ∧ c ≠ '\\' ∧ c ≠ '\x00' := by
    have hany := fun hbad => hsep (List.any_eq_true.mpr ⟨c, hc, hbad⟩)
    simpa [isDirectSeparator, not_or, and_assoc] using hany
  refine ⟨hdots.1, hdots.2.1, hdots.2.2, hchars, ?_⟩
  rcases P.paths.splitDrive_cases name.toList with ⟨letter, hsplit, hname, hall⟩ | hnone
  · -- only a colon makes a drive, and Windows accepts none
    have hcolon : ':' ∈ name.toList := by
      rw [hname]
      exact List.mem_cons_of_mem _ List.mem_cons_self
    have hdrives : P.windows = true := by
      by_contra hposix
      have hnone : P.paths.splitDrive (letter :: ':' :: []) = (none, letter :: ':' :: []) :=
        if_neg fun hboth => hposix hboth.1
      rw [hall []] at hnone
      cases hnone
    exact absurd ⟨hdrives, List.any_eq_true.mpr ⟨':', hcolon, by simp⟩⟩ hwindows
  · exact hnone

theorem PlainName.isSeparator (h : PlainName P name) {c : Char} (hc : c ∈ name.toList) :
    ¬ P.paths.isSeparator c = true := by
  obtain ⟨hslash, hback, -⟩ := h.separator c hc
  change ¬ (c == '/' || (P.windows && c == '\\')) = true
  simp [hslash, hback]

/-- A plain name is one piece. -/
theorem PlainName.splitOnP (h : PlainName P name) :
    name.toList.splitOnP P.paths.isSeparator = [name.toList] :=
  List.splitOnP_eq_singleton fun _ hc => Bool.eq_false_iff.mpr (h.isSeparator hc)

theorem PlainName.descends (h : PlainName P name) : P.paths.Descends name where
  drive := h.drive
  root := by
    unfold PathConvention.hasRoot
    cases hlist : name.toList with
    | nil => rfl
    | cons c cs =>
      have hc : c ∈ name.toList := hlist ▸ List.mem_cons_self
      simpa using h.isSeparator hc
  parent := by
    rw [h.splitOnP, List.mem_singleton]
    intro hdots
    exact h.ne_parent (String.toList_inj.mp hdots.symm)

/-- A plain name becomes one more component. -/
theorem PlainName.components_push (h : PlainName P name) (target : String) :
    P.paths.components (P.paths.push target name) =
      P.paths.components target ++ [.normal name] := by
  have hempty : name.toList ≠ [] := fun hnil => h.ne_empty (String.toList_inj.mp hnil)
  have hdot : name.toList ≠ ['.'] := fun hone => h.ne_dot (String.toList_inj.mp hone)
  have hparent : name.toList ≠ ['.', '.'] := fun htwo => h.ne_parent (String.toList_inj.mp htwo)
  rw [PathConvention.components_push target h.descends (by simpa [h.splitOnP] using hdot)]
  unfold PathConvention.pieces
  rw [h.splitOnP]
  simp [PathComponent.ofPiece, hempty, hdot, hparent]

theorem components_foldl_push (h : ∀ name ∈ names, PlainName P name) (target : String) :
    P.paths.components (names.foldl P.paths.push target) =
      P.paths.components target ++ names.map .normal := by
  induction names generalizing target with
  | nil => exact (List.append_nil _).symm
  | cons name names ih =>
    rw [List.foldl_cons, ih fun x hx => h x (List.mem_cons_of_mem _ hx),
      (h name List.mem_cons_self).components_push, List.append_assoc]
    rfl

/-- Plain names lead strictly below, by one folder each. -/
theorem normalize_foldl_push (h : ∀ name ∈ names, PlainName P name) (target : String) :
    P.paths.normalize (names.foldl P.paths.push target) =
      { P.paths.normalize target with names := (P.paths.normalize target).names ++ names } := by
  unfold PathConvention.normalize
  rw [components_foldl_push h, List.foldl_append, NormalPath.foldl_step_normal]

/-- What the loop returns is the target with the name of every component pushed onto it, in a
path as a string and as the list of its components. -/
theorem pushRemoteDropStrings_ok (h : pushRemoteDropStrings P target encoded = .ok p)
    (dir : PathBuf) :
    ∃ names, List.Forall₂ (fun e name => decodeRemoteDropComponent e = .ok name ∧
        PlainName P name) encoded names ∧
      p = names.foldl P.paths.push target ∧
      pushRemoteDrop P dir encoded = .ok (dir ++ names) := by
  induction encoded generalizing target dir with
  | nil =>
    cases h
    exact ⟨[], .nil, rfl, congrArg _ (List.append_nil dir).symm⟩
  | cons e rest ih =>
    unfold pushRemoteDropStrings at h
    cases hdecode : decodeRemoteDropComponent e with
    | error err =>
      rw [hdecode] at h
      cases h
    | ok name =>
      rw [hdecode] at h
      dsimp only at h
      cases hvalid : validateRemoteDropComponent P name with
      | error err =>
        rw [hvalid] at h
        cases h
      | ok u =>
        rw [hvalid] at h
        obtain ⟨names, hall, hp, hlist⟩ := ih h (dir ++ [name])
        refine ⟨name :: names, .cons ⟨hdecode, plainName_of_validate hvalid⟩ hall, hp, ?_⟩
        unfold pushRemoteDrop
        rw [hdecode]
        dsimp only
        rw [hvalid]
        dsimp only
        rw [hlist, List.append_assoc]
        rfl

theorem dropsBelow_of_forall₂ (hne : encoded ≠ [])
    (h : List.Forall₂ (DecodesTo P) encoded names) :
    DropsBelow P target encoded (names.foldl P.paths.push target) where
  ne_nil := hne
  names := by
    have hplain (name : String) (hname : name ∈ names) : PlainName P name := by
      obtain ⟨i, hi, rfl⟩ := List.mem_iff_getElem.mp hname
      have hlen := h.length_eq
      exact (h.get (hlen ▸ hi) hi).2.2
    exact ⟨names, h, rfl, components_foldl_push hplain target, normalize_foldl_push hplain target⟩

/-- What is decoded of parts without a slash. -/
theorem decodesTo_of_forall₂ (hslash : ∀ e ∈ encoded, '/' ∉ e.toList)
    (h : List.Forall₂ (fun e name => decodeRemoteDropComponent e = .ok name ∧ PlainName P name)
      encoded names) : List.Forall₂ (DecodesTo P) encoded names := by
  induction h with
  | nil => exact .nil
  | cons hhead _ ih =>
    exact .cons ⟨hslash _ List.mem_cons_self, hhead⟩
      (ih fun e he => hslash e (List.mem_cons_of_mem _ he))

theorem plainName_deviceRemote : PlainName P "DeviceRemote.exe" where
  ne_empty := by decide
  ne_dot := by decide
  ne_parent := by decide
  separator := by simp
  drive := by simp [PathConvention.splitDrive]

/-- The text behind a prefix, split at the slashes and joined again. -/
theorem stripPrefix_eq {start relative : String} (h : stripPrefix start path = some relative) :
    path = start ++ joinSlash (splitStr (· == '/') relative) := by
  unfold stripPrefix at h
  split_ifs at h with hstart
  obtain ⟨rest, hrest⟩ := List.isPrefixOf_iff_prefix.mp hstart
  rw [← hrest, List.drop_left] at h
  cases h
  rw [joinSlash_splitStr, ← String.toList_inj, String.toList_append, String.toList_ofList, hrest]

/-- Wherever the destination of a drop is accepted, it is the downloads folder followed by the
names that the parts of the destination are decoded to, and lies strictly below the folder. -/
theorem resolveRemoteDropStrings_below
    (h : resolveRemoteDropStrings P downloads strict path = .ok (some p)) :
    ∃ dir start encoded, (dir = downloads ∧ start = remoteDropDownloadsPrefix ∨
        strict = .ok dir ∧ start = deviceRemotePrefix) ∧
      path = start ++ joinSlash encoded ∧ DropsBelow P dir encoded p := by
  unfold resolveRemoteDropStrings at h
  split_ifs at h with hdevice htarget
  · rw [not_not] at htarget
    cases hdir : strict with
    | error e =>
      rw [hdir] at h
      cases h
    | ok dir =>
      rw [hdir] at h
      cases h
      refine ⟨dir, deviceRemotePrefix, ["DeviceRemote.exe"], .inr ⟨rfl, rfl⟩, ?_, ?_⟩
      · rw [htarget, joinSlash_singleton]
        rfl
      · exact dropsBelow_of_forall₂ (List.cons_ne_nil _ _)
          (.cons ⟨by decide, by decide +kernel, plainName_deviceRemote⟩ .nil)
  · cases hstrip : stripPrefix remoteDropDownloadsPrefix path with
    | none =>
      rw [hstrip] at h
      cases h
    | some relative =>
      rw [hstrip] at h
      dsimp only at h
      split_ifs at h with hempty
      cases hpush : pushRemoteDropStrings P downloads (splitStr (· == '/') relative) with
      | error e =>
        rw [hpush] at h
        cases h
      | ok q =>
        rw [hpush] at h
        cases h
        obtain ⟨names, hall, rfl, -⟩ := pushRemoteDropStrings_ok hpush []
        refine ⟨downloads, remoteDropDownloadsPrefix, _, .inl ⟨rfl, rfl⟩, stripPrefix_eq hstrip,
          dropsBelow_of_forall₂ (splitStr_ne_nil _ _) ?_⟩
        exact decodesTo_of_forall₂ (fun e he => slash_notMem_splitStr he) hall

/-- An encoded dot is part of a name. -/
theorem resolveRemoteDropStrings_below_sample : ∃ dir encoded,
    DropsBelow .posix dir encoded "/home/user/Downloads/a..b/c" := by
  have hresolve : resolveRemoteDropStrings .posix "/home/user/Downloads" (.error "unavailable")
      "mdesk-drop-downloads:a%2E%2eb/c" = .ok (some "/home/user/Downloads/a..b/c") := by
    decide +kernel
  obtain ⟨dir, _, encoded, -, -, hbelow⟩ := resolveRemoteDropStrings_below hresolve
  exact ⟨dir, encoded, hbelow⟩

end MDesk
