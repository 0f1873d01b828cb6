import MDesk.Core.Table
import MDesk.Core.Text

/-!
# Retired endpoints

Stored server addresses that name the retired host are rewritten to the present one whenever
options are loaded, read or set. Only the host is to be replaced, and only where the address is
one of that host.
-/

namespace MDesk

open MDesk.Core

/-- `SERVER_HOST`. -/
def serverHost : List Char := "787.kr".toList

/-- `LEGACY_HOST`. -/
def legacyHost : List Char := "mdesk.imedixerp.co.kr".toList

/-- `eq_ignore_ascii_case`. -/
def eqIgnoreAsciiCase (s t : List Char) : Bool := s.map Char.toLower = t.map Char.toLower

namespace Endpoint

/-- What ends the authority of an address. -/
def endsAuthority (c : Char) : Bool := c = '/' || c = '?' || c = '#'

/-- What ends the host of an address. -/
def endsHost (c : Char) : Bool := c = ':' || endsAuthority c

def schemeEnd : List Char := "://".toList

/-- The text up to the first `://`, with it, and what is behind. -/
def splitScheme (trimmed : List Char) : List Char × List Char :=
  match splitAtFirst schemeEnd trimmed with
  | some (front, rest) => (front ++ schemeEnd, rest)
  | none => ([], trimmed)

/-- The host at the start of a text. -/
def hostOf (rest : List Char) : List Char := rest.takeWhile fun c => !endsHost c

/-- What is behind the host at the start of a text. -/
def suffixOf (rest : List Char) : List Char := rest.dropWhile fun c => !endsHost c

/-- The authority at the start of a text. -/
def authorityOf (rest : List Char) : List Char := rest.takeWhile fun c => !endsAuthority c

/-- `canonical_server`. -/
def canonicalServer (value : String) : String :=
  let (scheme, rest) := splitScheme (trimEnds isWhiteSpace value.toList)
  if '@' ∈ authorityOf rest then value
  else if eqIgnoreAsciiCase (hostOf rest) legacyHost then
    String.ofList (scheme ++ serverHost ++ suffixOf rest)
  else value

/-- `canonical_option`. -/
def canonicalOption (key value : String) : String :=
  if key = "custom-rendezvous-server" ∨ key = "relay-server" then canonicalServer value
  else if key = "rendezvous-servers" then
    String.ofList ([','].intercalate ((value.toList.splitOn ',').map fun server =>
      (canonicalServer (String.ofList server)).toList))
  else value

/-- `migrate_options`, and whether it has changed a value. -/
def migrateOptions (options : Table String String) : Table String String × Bool :=
  (options.mapWithKey canonicalOption,
    options.entries.any fun e => canonicalOption e.1 e.2 ≠ e.2)

/-! ## What is rewritten -/

/-- An address as it is written: a scheme with its `://` or none, a host and what is behind. -/
structure Address where
  scheme : List Char
  host : List Char
  suffix : List Char

/-- The address that a text gives. A scheme holds none of the characters that end a host. -/
def Address.read (text : List Char) : Address :=
  let scheme := if (hostOf text ++ schemeEnd).isPrefixOf text then hostOf text ++ schemeEnd else []
  ⟨scheme, hostOf (text.drop scheme.length), suffixOf (text.drop scheme.length)⟩

/-- A value is kept, or it is an address of the retired host, of which nothing but the host is
replaced. -/
def Precise (value : String) : Prop :=
  let address := Address.read (trimEnds isWhiteSpace value.toList)
  canonicalServer value = value ∨ eqIgnoreAsciiCase address.host legacyHost = true ∧
    canonicalServer value = String.ofList (address.scheme ++ serverHost ++ address.suffix)

/-- The first `://` stands behind the host, and what follows it starts like an address of the
retired host. -/
def Misplaced (value : String) : Prop :=
  ∃ front rest, splitAtFirst schemeEnd (trimEnds isWhiteSpace value.toList) = some (front, rest) ∧
    (∃ c ∈ front, endsHost c = true) ∧ '@' ∉ authorityOf rest ∧
    eqIgnoreAsciiCase (hostOf rest) legacyHost = true

variable {value : String} {text front rest : List Char}

theorem hostOf_append_suffixOf (rest : List Char) : hostOf rest ++ suffixOf rest = rest :=
  List.takeWhile_append_dropWhile

theorem hostOf_append_of_forall (h : ∀ c ∈ front, endsHost c = false) :
    hostOf (front ++ rest) = front ++ hostOf rest := by
  apply List.takeWhile_append_of_pos
  intro c hc
  rw [h c hc]
  rfl

theorem suffixOf_append_of_forall (h : ∀ c ∈ front, endsHost c = false) :
    suffixOf (front ++ rest) = suffixOf rest := by
  apply List.dropWhile_append_of_pos
  intro c hc
  rw [h c hc]
  rfl

theorem hostOf_suffixOf (rest : List Char) : hostOf (suffixOf rest) = [] := by
  unfold hostOf suffixOf
  cases h : rest.dropWhile fun c => !endsHost c with
  | nil => rfl
  | cons c cs =>
    have hc := List.head?_dropWhile_not (fun c => !endsHost c) rest
    rw [h] at hc
    simpa using hc

theorem suffixOf_suffixOf (rest : List Char) : suffixOf (suffixOf rest) = suffixOf rest := by
  have h := hostOf_append_suffixOf (suffixOf rest)
  rwa [hostOf_suffixOf] at h

/-- A text whose first `://` has no end of a host in front of it is read as it is split. -/
theorem read_eq (h : ∀ front rest, splitAtFirst schemeEnd text = some (front, rest) →
      ∀ c ∈ front, endsHost c = false) :
    Address.read text = ⟨(splitScheme text).1, hostOf (splitScheme text).2,
      suffixOf (splitScheme text).2⟩ := by
  unfold splitScheme
  cases hsplit : splitAtFirst schemeEnd text with
  | none =>
    have hnot : (hostOf text ++ schemeEnd).isPrefixOf text = false := by
      rw [Bool.eq_false_iff]
      intro hpre
      refine splitAtFirst_ne_none (List.IsInfix.trans ?_
        (List.isPrefixOf_iff_prefix.mp hpre).isInfix) hsplit
      exact (List.suffix_append _ _).isInfix
    simp [Address.read, hnot]
  | some parts =>
    obtain ⟨front, rest⟩ := parts
    have htext := splitAtFirst_eq hsplit
    have hhost : hostOf text = front := by
      rw [htext, List.append_assoc, hostOf_append_of_forall (h front rest hsplit)]
      exact List.append_nil front
    have hpre : (front ++ schemeEnd).isPrefixOf text = true := by
      rw [List.isPrefixOf_iff_prefix, htext]
      exact List.prefix_append _ _
    have hdrop : text.drop (front ++ schemeEnd).length = rest := by
      rw [htext]
      exact List.drop_left
    simp only [Address.read, hhost, hpre, if_true, hdrop]

/-- A text whose first `://` stands behind the host has no scheme. -/
theorem read_scheme (h : splitAtFirst schemeEnd text = some (front, rest))
    (hend : ∃ c ∈ front, endsHost c = true) :
    (Address.read text).scheme = [] ∧ hostOf text <+: front := by
  obtain ⟨c, hc, hends⟩ := hend
  have hhost : hostOf text = hostOf front := by
    rw [splitAtFirst_eq h, List.append_assoc]
    unfold hostOf
    rw [List.takeWhile_append, if_neg]
    intro hlen
    have hall := List.takeWhile_eq_self_iff.mp
      ((List.takeWhile_prefix _).eq_of_length hlen)
    simpa [hends] using hall c hc
  have hpre : hostOf front <+: front := List.takeWhile_prefix _
  have hne : hostOf front ≠ front := by
    intro heq
    have hall := List.takeWhile_eq_self_iff.mp heq
    simpa [hends] using hall c hc
  refine ⟨?_, hhost ▸ hpre⟩
  have hnot : (hostOf text ++ schemeEnd).isPrefixOf text = false := by
    rw [Bool.eq_false_iff, hhost]
    intro hfound
    exact not_prefix_of_splitAtFirst h hpre hne (List.isPrefixOf_iff_prefix.mp hfound)
  simp [Address.read, hnot]

/-- What `canonical_server` may answer. -/
theorem canonicalServer_cases (value : String) :
    let parts := splitScheme (trimEnds isWhiteSpace value.toList)
    ('@' ∉ authorityOf parts.2 ∧ eqIgnoreAsciiCase (hostOf parts.2) legacyHost = true ∧
        canonicalServer value = String.ofList (parts.1 ++ serverHost ++ suffixOf parts.2)) ∨
      canonicalServer value = value := by
  unfold canonicalServer
  dsimp only
  split_ifs with hat hhost
  · exact .inr rfl
  · exact .inl ⟨hat, hhost, rfl⟩
  · exact .inr rfl

/-! ## Rewritten values -/

theorem endsHost_of_mem_serverHost {c : Char} (h : c ∈ serverHost) : endsHost c = false := by
  have hall : ∀ c ∈ serverHost, endsHost c = false := forall_mem_of_all (by decide)
  exact hall c h

/-- A text without the characters of another one does not hold the start of it. -/
theorem infix_of_infix_append {sep : List Char} (hne : sep ≠ [])
    (h : sep <:+: front ++ rest) (hfree : ∀ c ∈ front, c ∉ sep) : sep <:+: rest := by
  induction front with
  | nil => exact h
  | cons c front ih =>
    rcases List.infix_cons_iff.mp h with hpre | hinfix
    · obtain ⟨d, sep, rfl⟩ := List.exists_cons_of_ne_nil hne
      rw [(List.cons_prefix_cons.mp hpre).1] at hfree
      exact absurd List.mem_cons_self (hfree c List.mem_cons_self)
    · exact ih hinfix fun d hd => hfree d (List.mem_cons_of_mem c hd)

/-- The scheme does not depend on the host. -/
theorem splitScheme_rewritten (text : List Char) :
    splitScheme ((splitScheme text).1 ++ serverHost ++ suffixOf (splitScheme text).2) =
      ((splitScheme text).1, serverHost ++ suffixOf (splitScheme text).2) := by
  unfold splitScheme
  cases h : splitAtFirst schemeEnd text with
  | some parts =>
    dsimp only
    rw [List.append_assoc, splitAtFirst_append h]
  | none =>
    have hnone : splitAtFirst schemeEnd (serverHost ++ suffixOf text) = none := by
      rw [← not_ne_iff]
      intro hsome
      obtain ⟨parts, hparts⟩ := Option.ne_none_iff_exists'.mp hsome
      have hinfix : schemeEnd <:+: serverHost ++ suffixOf text := by
        rw [splitAtFirst_eq hparts]
        exact List.infix_append _ _ _
      have hbehind := infix_of_infix_append (by decide) hinfix (forall_mem_of_all (by decide))
      exact splitAtFirst_ne_none (hbehind.trans (List.dropWhile_suffix _).isInfix) h
    dsimp only
    rw [List.nil_append, hnone]

/-- What has been rewritten has no white space at its ends. -/
theorem trimEnds_rewritten (text : List Char) :
    let parts := splitScheme (trimEnds isWhiteSpace text)
    trimEnds isWhiteSpace (parts.1 ++ serverHost ++ suffixOf parts.2) =
      parts.1 ++ serverHost ++ suffixOf parts.2 := by
  intro parts
  have hparts : parts.1 ++ parts.2 = trimEnds isWhiteSpace text := by
    show (splitScheme _).1 ++ (splitScheme _).2 = _
    unfold splitScheme
    cases h : splitAtFirst schemeEnd (trimEnds isWhiteSpace text) with
    | none => rfl
    | some parts => exact (splitAtFirst_eq h).symm
  apply trimEnds_eq_self
  · intro c hc
    cases hscheme : parts.1 with
    | nil =>
      rw [hscheme] at hc
      cases hc
      decide
    | cons d scheme =>
      rw [hscheme] at hc hparts
      cases hc
      exact head?_trimEnds (by rw [← hparts]; rfl)
  · intro c hc
    cases hsuffix : suffixOf parts.2 with
    | nil =>
      rw [hsuffix, List.append_nil, List.getLast?_append_of_ne_nil _ (by decide)] at hc
      cases hc
      decide
    | cons d suffix =>
      rw [List.getLast?_append_of_ne_nil _ (by rw [hsuffix]; nofun)] at hc
      have hlast : (trimEnds isWhiteSpace text).getLast? = some c := by
        rw [← hparts, ← hostOf_append_suffixOf parts.2, ← List.append_assoc,
          List.getLast?_append_of_ne_nil _ (by rw [hsuffix]; nofun), hc]
      exact getLast?_trimEnds hlast

/-- What is canonical stays as it is. -/
theorem canonicalServer_idem (value : String) :
    canonicalServer (canonicalServer value) = canonicalServer value := by
  rcases canonicalServer_cases value with ⟨-, -, heq⟩ | heq
  · rw [heq]
    generalize hw : splitScheme (trimEnds isWhiteSpace value.toList) = parts
    have htrim := trimEnds_rewritten value.toList
    have hsplit := splitScheme_rewritten (trimEnds isWhiteSpace value.toList)
    rw [hw] at htrim hsplit
    have hhost : hostOf (serverHost ++ suffixOf parts.2) = serverHost := by
      rw [hostOf_append_of_forall fun c => endsHost_of_mem_serverHost, hostOf_suffixOf,
        List.append_nil]
    have hnot : eqIgnoreAsciiCase serverHost legacyHost = false := by decide
    unfold canonicalServer
    simp only [String.toList_ofList, htrim, hsplit, hhost, hnot, Bool.false_eq_true, if_false,
      ite_self]
  · rw [heq, heq]

/-- An address is rewritten precisely unless what is rewritten stands behind its host. -/
theorem precise_iff (value : String) : Precise value ↔ ¬ Misplaced value := by
  unfold Precise Misplaced
  obtain ⟨text, htext⟩ : ∃ text, text = trimEnds isWhiteSpace value.toList := ⟨_, rfl⟩
  have hcases := canonicalServer_cases value
  rw [← htext] at hcases ⊢
  constructor
  · rintro hprecise ⟨front, rest, hsplit, hend, hat, hhost⟩
    have hparts : splitScheme text = (front ++ schemeEnd, rest) := by rw [splitScheme, hsplit]
    have heq : canonicalServer value =
        String.ofList (front ++ schemeEnd ++ serverHost ++ suffixOf rest) := by
      simp only [canonicalServer, ← htext, hparts, if_neg hat, hhost, if_true]
    rw [heq] at hprecise
    rcases hprecise with hsame | ⟨hlegacy, hsame⟩
    · -- The answer is shorter than the value.
      have hlong : text.length ≤ value.toList.length := by
        rw [htext]
        exact ((List.rdropWhile_prefix _ _).length_le).trans (List.dropWhile_sublist _).length_le
      have hlength := congrArg List.length (splitAtFirst_eq hsplit)
      have hrest := congrArg List.length (hostOf_append_suffixOf rest)
      rw [List.length_append, List.length_append] at hlength
      rw [List.length_append] at hrest
      have hhostLength : (hostOf rest).length = legacyHost.length := by
        have hmap := congrArg List.length (of_decide_eq_true hhost)
        rwa [List.length_map, List.length_map] at hmap
      have hanswer := congrArg (fun s => s.toList.length) hsame
      simp only [String.toList_ofList, List.length_append] at hanswer
      have hshort : serverHost.length < legacyHost.length := by decide
      omega
    · -- The text starts with a retired host, the answer still does.
      obtain ⟨hscheme, hpre⟩ := read_scheme hsplit hend
      have haddress : (Address.read text).host = hostOf text := by
        simp only [Address.read] at hscheme ⊢
        rw [hscheme]
        rfl
      rw [haddress] at hlegacy
      rw [hscheme, List.nil_append] at hsame
      have hlist := congrArg String.toList hsame
      rw [String.toList_ofList, String.toList_ofList] at hlist
      have hmap := of_decide_eq_true hlegacy
      cases hstart : hostOf text with
      | nil =>
        rw [hstart] at hmap
        exact absurd hmap (by decide)
      | cons c host =>
        obtain ⟨rest', hrest'⟩ := hpre
        rw [hstart] at hmap hrest'
        have hserver : serverHost = '7' :: serverHost.tail := by decide
        rw [← hrest', hserver] at hlist
        rw [(List.cons.inj hlist).1] at hmap
        have hhead := congrArg List.head? hmap
        rw [List.map_cons, List.head?_cons] at hhead
        exact absurd hhead (by decide)
  · intro hplaced
    by_cases hend : ∀ front rest, splitAtFirst schemeEnd text = some (front, rest) →
        ∀ c ∈ front, endsHost c = false
    · rcases hcases with ⟨-, hhost, heq⟩ | heq
      · rw [read_eq hend]
        exact .inr ⟨hhost, heq⟩
      · exact .inl heq
    · push Not at hend
      obtain ⟨front, rest, hsplit, c, hc, hends⟩ := hend
      rcases hcases with ⟨hat, hhost, -⟩ | heq
      · rw [splitScheme, hsplit] at hat hhost
        refine absurd ⟨front, rest, hsplit, ⟨c, hc, ?_⟩, hat, hhost⟩ hplaced
        simpa using hends
      · exact .inl heq

/-! ## Options -/

theorem mem_canonicalServer {c : Char} (h : c ∈ (canonicalServer value).toList) :
    c ∈ value.toList ∨ c ∈ serverHost := by
  rcases canonicalServer_cases value with ⟨-, -, heq⟩ | heq
  · rw [heq, String.toList_ofList, List.mem_append, List.mem_append] at h
    have hparts : ∀ c, c ∈ (splitScheme (trimEnds isWhiteSpace value.toList)).1 ∨
        c ∈ (splitScheme (trimEnds isWhiteSpace value.toList)).2 → c ∈ value.toList := by
      intro c hc
      apply mem_of_mem_trimEnds (p := isWhiteSpace)
      unfold splitScheme at hc
      cases hsplit : splitAtFirst schemeEnd (trimEnds isWhiteSpace value.toList) with
      | none => simpa [hsplit] using hc
      | some parts =>
        rw [hsplit] at hc
        rw [splitAtFirst_eq hsplit]
        exact List.mem_append.mpr hc
    rcases h with (h | h) | h
    · exact .inl (hparts c (.inl h))
    · exact .inr h
    · exact .inl (hparts c (.inr ((List.dropWhile_sublist _).mem h)))
  · rw [heq] at h
    exact .inl h

theorem canonicalOption_idem (key value : String) :
    canonicalOption key (canonicalOption key value) = canonicalOption key value := by
  unfold canonicalOption
  split_ifs
  · exact canonicalServer_idem value
  · generalize hservers : (value.toList.splitOn ',').map (fun server =>
      (canonicalServer (String.ofList server)).toList) = servers
    have hfree : ∀ server ∈ servers, ',' ∉ server := by
      intro server hserver
      rw [← hservers] at hserver
      obtain ⟨piece, hpiece, rfl⟩ := List.mem_map.mp hserver
      intro hcomma
      rcases mem_canonicalServer hcomma with hcomma | hcomma
      · rw [String.toList_ofList] at hcomma
        rw [List.splitOn_eq_splitOnP] at hpiece
        exact absurd (splitOnP_forall hpiece ',' hcomma) (by decide)
      · exact absurd hcomma (by decide)
    have hne : servers ≠ [] := by
      rw [← hservers]
      simp [List.splitOn_ne_nil]
    rw [String.toList_ofList, List.splitOn_intercalate ',' hfree hne]
    congr 2
    rw [← hservers, List.map_map]
    apply List.map_congr_left
    intro server _
    rw [Function.comp_apply, String.ofList_toList, canonicalServer_idem]
  · rfl

/-- Options that have been migrated are left alone. -/
theorem migrateOptions_idem (options : Table String String) :
    migrateOptions (migrateOptions options).1 = ((migrateOptions options).1, false) := by
  have hentries : (options.mapWithKey canonicalOption).entries =
      options.entries.map fun e => ⟨e.1, canonicalOption e.1 e.2⟩ := rfl
  apply Prod.ext
  · apply AList.ext
    show ((options.mapWithKey canonicalOption).mapWithKey canonicalOption).entries =
      (options.mapWithKey canonicalOption).entries
    simp [Table.mapWithKey, canonicalOption_idem, Function.comp_def]
  · simp [migrateOptions, hentries, canonicalOption_idem]

/-- Migration settles and is precise, unless a `://` stands behind the host of an address and in
front of a retired one. -/
theorem migration_iff (value : String) (options : Table String String) :
    (canonicalServer (canonicalServer value) = canonicalServer value ∧ Precise value ∧
      migrateOptions (migrateOptions options).1 = ((migrateOptions options).1, false)) ↔
      ¬ Misplaced value := by
  rw [← precise_iff]
  constructor
  · rintro ⟨-, hprecise, -⟩
    exact hprecise
  · intro hprecise
    exact ⟨canonicalServer_idem value, hprecise, migrateOptions_idem options⟩

/-- The query of another server is rewritten. -/
theorem canonicalServer_rewrites_query :
    ¬ Precise "other.example/?next=http://mdesk.imedixerp.co.kr" := by
  rw [precise_iff, not_not]
  refine ⟨"other.example/?next=http".toList, legacyHost, by decide, ⟨'/', by decide, by decide⟩,
    by decide, by decide⟩

end Endpoint

end MDesk
