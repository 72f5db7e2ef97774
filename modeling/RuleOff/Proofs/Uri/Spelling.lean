import RuleOff.Uri.FilePath

/-!
# Spellings of file URIs

Many URIs stand for one path: a character may be percent-encoded without need, a slash may be
repeated, and a query or a fragment may follow. A path has one URI only, which is the plain one
among them.

## Main definitions

* `Uri.IsPlain`: the URI is written as that of a path.

## Main statements

* `Uri.Percent.decode_encode`: decoding undoes the encoding of a file name.
* `Uri.authority_of_parse`: the authority of a file URI that was read.
* `Uri.eq_of_isPlain`: there is one plain URI of a path.
* `Uri.text_eq_iff_isPlain`: the plain URI of a path is the one with the text that the path has.
-/

namespace RuleOff

namespace Uri.Percent

theorem decode_encodeByte (b : UInt8) (rest : Text) :
    decode (encodeByte b ++ rest) = b :: decode rest := by
  have small : b.toNat < 256 := b.toNat_lt_size
  have high := Text.hexDigit?_upperHexDigit (n := b.toNat / 16) (by omega)
  have low := Text.hexDigit?_upperHexDigit (n := b.toNat % 16) (by omega)
  have value : b.toNat / 16 * 16 + b.toNat % 16 = b.toNat := by omega
  change decode ('%' :: _ :: _ :: rest) = _
  rw [decode, high, low]
  dsimp only
  rw [value, UInt8.ofNat_toNat]

theorem decode_encodeBytes (bs : List UInt8) (rest : Text) :
    decode (bs.flatMap encodeByte ++ rest) = bs ++ decode rest := by
  induction bs with
  | nil => rfl
  | cons b bs ih => rw [List.flatMap_cons, List.append_assoc, decode_encodeByte, ih, List.cons_append]

theorem decode_cons {c : Char} (h : c ≠ '%') (rest : Text) :
    decode (c :: rest) = String.utf8EncodeChar c ++ decode rest := by
  rw [decode]
  intro a b rest' same
  exact absurd same h

theorem decode_encodeChar {set : Char → Bool} (percent : set '%' = true) (c : Char) (rest : Text) :
    decode (encodeChar set c ++ rest) = String.utf8EncodeChar c ++ decode rest := by
  unfold encodeChar
  split
  · exact decode_encodeBytes _ rest
  · next h =>
    apply decode_cons
    rintro rfl
    exact h percent

/-- Decoding undoes an encoding that encodes the percent sign as well. -/
theorem decode_encode {set : Char → Bool} (percent : set '%' = true) (t : Text) :
    decode (encode set t) = Text.utf8 t := by
  induction t with
  | nil => rfl
  | cons c t ih =>
    change decode (encodeChar set c ++ encode set t) = String.utf8EncodeChar c ++ Text.utf8 t
    rw [decode_encodeChar percent, ih]

theorem isAlphanum_upperHexDigit {n : Nat} (h : n < 16) : (Text.upperHexDigit n).isAlphanum := by
  have all : ∀ i : Fin 16, (Text.upperHexDigit i.val).isAlphanum := by decide
  exact all ⟨n, h⟩

/-- An encoded text consists of characters outside the set, percent signs and digits. -/
theorem cases_of_mem_encode {set : Char → Bool} {c : Char} {t : Text} (mem : c ∈ encode set t) :
    set c = false ∨ c = '%' ∨ c.isAlphanum := by
  obtain ⟨d, -, mem⟩ := List.mem_flatMap.mp mem
  unfold encodeChar at mem
  split at mem
  · obtain ⟨b, -, mem⟩ := List.mem_flatMap.mp mem
    have small : b.toNat < 256 := b.toNat_lt_size
    simp only [encodeByte, List.mem_cons, List.not_mem_nil, or_false] at mem
    rcases mem with rfl | rfl | rfl
    · exact .inr (.inl rfl)
    · exact .inr (.inr (isAlphanum_upperHexDigit (by omega)))
    · exact .inr (.inr (isAlphanum_upperHexDigit (by omega)))
  · next outside =>
    rw [List.mem_singleton] at mem
    subst mem
    exact .inl (eq_false_of_ne_true outside)

/-- The marks between the parts of a URI do not occur in an encoded file name. -/
theorem notMem_encode {c : Char} (h : c ∈ ['/', '?', '#']) (t : Text) :
    c ∉ encode fileNameSet t := by
  have mark : ∀ c ∈ ['/', '?', '#'], fileNameSet c = true ∧ c ≠ '%' ∧ c.isAlphanum = false := by
    decide
  obtain ⟨set, percent, digit⟩ := mark c h
  intro mem
  rcases cases_of_mem_encode mem with outside | same | alphanum
  · rw [set] at outside
    exact Bool.noConfusion outside
  · exact percent same
  · rw [digit] at alphanum
    exact Bool.noConfusion alphanum

end Uri.Percent

namespace Path

/-- A text that counts when it stands between two slashes of a path. -/
structure IsName (n : Text) : Prop where
  ne_nil : n ≠ []
  ne_dot : n ≠ ['.']
  no_slash : '/' ∉ n

theorem text_of_component? {n : Text} {c : Component} (h : component? n = some c) : c.text = n := by
  unfold component? at h
  split at h
  · exact nomatch h
  · split at h
    · next up =>
      obtain rfl := Option.some.inj h
      exact up.symm
    · obtain rfl := Option.some.inj h
      rfl

theorem IsName.exists_component {n : Text} (name : IsName n) : ∃ c, component? n = some c := by
  unfold component?
  rw [if_neg (not_or.mpr ⟨name.ne_nil, name.ne_dot⟩)]
  split
  · exact ⟨_, rfl⟩
  · exact ⟨_, rfl⟩

theorem isName_of_component? {n t : Text} {c : Component} (piece : n ∈ Text.split '/' t)
    (h : component? n = some c) : IsName n := by
  unfold component? at h
  split at h
  · exact nomatch h
  · next counts =>
    obtain ⟨ne_nil, ne_dot⟩ := not_or.mp counts
    exact ⟨ne_nil, ne_dot, Text.notMem_of_mem_split piece⟩

/-- The texts of the components behind the root. -/
def names (p : Path) : List Text := (p.components.drop 1).map Component.text

theorem components_of_root (t : Text) :
    (⟨'/' :: t⟩ : Path).components = .root :: (Text.split '/' t).filterMap component? := by
  have pieces : Text.split '/' ('/' :: t) = [] :: Text.split '/' t := by
    rw [Text.split, if_pos rfl]
  unfold components
  simp only [pieces]
  rfl

theorem names_of_root (t : Text) : (⟨'/' :: t⟩ : Path).names = (Text.split '/' t).filter fun n =>
    (component? n).isSome := by
  unfold names
  rw [components_of_root, List.drop_one, List.tail_cons]
  induction Text.split '/' t with
  | nil => rfl
  | cons n ns ih =>
    cases counts : component? n with
    | none =>
      rw [List.filterMap_cons_none counts, ih, List.filter_cons_of_neg (by simp [counts])]
    | some c =>
      rw [List.filterMap_cons_some counts, List.map_cons, ih,
        List.filter_cons_of_pos (by simp [counts]), text_of_component? counts]

theorem isName_of_mem_names {t n : Text} (h : n ∈ (⟨'/' :: t⟩ : Path).names) : IsName n := by
  rw [names_of_root, List.mem_filter] at h
  obtain ⟨c, counts⟩ := Option.isSome_iff_exists.mp h.2
  exact isName_of_component? h.1 counts

theorem eq_root_of_isAbsolute {p : Path} (absolute : p.isAbsolute) : ∃ t, p = ⟨'/' :: t⟩ := by
  obtain ⟨text⟩ := p
  cases text with
  | nil => exact absurd absolute (by decide)
  | cons c t =>
    have slash : c = '/' := by simpa [isAbsolute] using absolute
    exact ⟨t, by rw [slash]⟩

theorem ne_root_of_component? {n : Text} {c : Component} (h : component? n = some c) :
    c ≠ .root := by
  unfold component? at h
  rintro rfl
  split at h
  · exact nomatch h
  · split at h
    · exact nomatch h
    · exact nomatch h

/-- A path that names the same place as an absolute one is absolute. -/
theorem isAbsolute_of_same {p q : Path} (same : p.same q = true) (absolute : p.isAbsolute) :
    q.isAbsolute := by
  obtain ⟨t, rfl⟩ := eq_root_of_isAbsolute absolute
  rw [same_iff, components_of_root] at same
  by_cases h : q.isAbsolute = true
  · exact h
  · exfalso
    unfold components at same
    dsimp only at same
    rw [if_neg h] at same
    split at same
    · exact nomatch same
    · have root : Component.root ∈ (Text.split '/' q.text).filterMap component? := by
        rw [← same]
        exact List.mem_cons_self
      obtain ⟨n, -, counts⟩ := List.mem_filterMap.mp root
      exact ne_root_of_component? counts rfl

end Path

namespace Uri

/-- The URI is written as that of a path: it ends with its path, and between the slashes stand the
names of files, encoded as far as need be. -/
structure IsPlain (u : Uri) : Prop where
  no_query : u.query = none
  no_fragment : u.fragment = none
  path : ∃ names : List Text, (∀ n ∈ names, Path.IsName n) ∧
    u.path = ofSegments (names.map (Percent.encode Percent.fileNameSet))

theorem ofFilePath?_eq {p : Path} (absolute : p.isAbsolute) :
    ofFilePath? p = some ⟨"file".toList, some ⟨[], [], none⟩,
      ofSegments (p.names.map (Percent.encode Percent.fileNameSet)), none, none⟩ := by
  unfold ofFilePath? Path.names
  rw [if_pos absolute, List.map_map]
  rfl

/-- How the path of a URI is read. -/
theorem exists_of_toFilePath? {u : Uri} {p : Path} (denotes : u.toFilePath? = some p) :
    ∃ rest t, u.path = '/' :: rest ∧ (u.host? = none ∨ u.host? = some "localhost".toList) ∧
      Text.ofUtf8? ((Text.split '/' rest).flatMap fun s => 0x2F :: Percent.decode s) = some t ∧
      p = ⟨if endsInDrive t then t ++ ['/'] else t⟩ := by
  unfold toFilePath? at denotes
  obtain ⟨segments, found, within⟩ := Option.bind_eq_some_iff.mp denotes
  split at within
  · next host =>
    obtain ⟨t, read, path⟩ := Option.bind_eq_some_iff.mp within
    unfold segments? at found
    split at found
    · next rest slash =>
      obtain rfl := Option.some.inj found
      exact ⟨rest, t, slash, host, read, (Option.some.inj path).symm⟩
    · exact nomatch found
  · exact nomatch within

/-- The path of a URI is absolute. -/
theorem isAbsolute_of_toFilePath? {u : Uri} {p : Path} (denotes : u.toFilePath? = some p) :
    p.isAbsolute := by
  obtain ⟨rest, t, -, -, read, rfl⟩ := exists_of_toFilePath? denotes
  obtain ⟨s, ss, pieces⟩ := List.exists_cons_of_ne_nil (Text.split_ne_nil '/' rest)
  have slash : String.utf8EncodeChar '/' = [0x2F] := by decide
  rw [pieces, List.flatMap_cons, List.cons_append, ← List.singleton_append, ← slash,
    Text.ofUtf8?_append, Option.map_eq_some_iff] at read
  obtain ⟨t', -, rfl⟩ := read
  split <;> rfl

/-- The bytes of a path are read as the names in it. -/
theorem flatMap_decode_encode (names : List Text) :
    (names.map (Percent.encode Percent.fileNameSet)).flatMap
        (fun s => 0x2F :: Percent.decode s) = Text.utf8 (names.flatMap ('/' :: ·)) := by
  induction names with
  | nil => rfl
  | cons n names ih =>
    have slash : String.utf8EncodeChar '/' = [0x2F] := by decide
    have percent : Percent.fileNameSet '%' = true := by decide
    unfold Text.utf8 at ih ⊢
    rw [List.map_cons, List.flatMap_cons, ih, Percent.decode_encode percent, List.flatMap_cons,
      List.flatMap_append, List.flatMap_cons, slash]
    rfl

theorem flatMap_slash {names : List Text} (h : names ≠ []) :
    names.flatMap ('/' :: ·) = '/' :: Text.join '/' names := by
  induction names with
  | nil => exact absurd rfl h
  | cons n names ih =>
    cases names with
    | nil => simp [Text.join]
    | cons m names =>
      rw [List.flatMap_cons, ih (List.cons_ne_nil m names), Text.join_cons_of_ne_nil _ _
        (List.cons_ne_nil m names)]
      rfl

theorem names_eq_of_plain {u : Uri} {p : Path} (denotes : u.toFilePath? = some p)
    {names : List Text} (all : ∀ n ∈ names, Path.IsName n)
    (path : u.path = ofSegments (names.map (Percent.encode Percent.fileNameSet))) :
    p.names = names := by
  obtain ⟨rest, t, path', -, read, rfl⟩ := exists_of_toFilePath? denotes
  obtain rfl : Text.join '/' (names.map (Percent.encode Percent.fileNameSet)) = rest := by
    rw [path] at path'
    exact (List.cons.inj path').2
  by_cases root : names = []
  · subst root
    have slash : Text.utf8 ['/'] = [0x2F] := by decide
    have alone : Text.ofUtf8? [0x2F] = some t := read
    rw [← slash, Text.ofUtf8?_utf8] at alone
    obtain rfl := Option.some.inj alone
    rfl
  · have pieces : Text.split '/' (Text.join '/' (names.map (Percent.encode Percent.fileNameSet))) =
        names.map (Percent.encode Percent.fileNameSet) := by
      apply Text.split_join (by simp [root])
      intro s mem
      obtain ⟨n, -, rfl⟩ := List.mem_map.mp mem
      exact Percent.notMem_encode (by decide) n
    rw [pieces, flatMap_decode_encode, Text.ofUtf8?_utf8, flatMap_slash root] at read
    obtain rfl := Option.some.inj read
    have counts : ∀ n ∈ names, (Path.component? n).isSome := by
      intro n mem
      obtain ⟨c, here⟩ := (all n mem).exists_component
      rw [here]
      rfl
    have kept : names.filter (fun n => (Path.component? n).isSome) = names :=
      List.filter_eq_self.mpr counts
    have cut : Text.split '/' (Text.join '/' names) = names :=
      Text.split_join root fun n mem => (all n mem).no_slash
    -- A slash at the end, as behind a drive, does not count.
    split
    · rw [List.cons_append, Path.names_of_root, Text.split_append, cut, List.filter_append, kept]
      exact List.append_nil names
    · rw [Path.names_of_root, cut, kept]

/-- The authority of a URI of a local file holds a host at most, which is not the local one. -/
theorem authority_of_file {scheme t : Text} {u : Uri} (written : file? scheme t = some u) :
    ∃ host, u.authority = some ⟨[], host, none⟩ ∧ host ≠ "localhost".toList := by
  have absent : ([] : Text) ≠ "localhost".toList := by decide
  unfold file? at written
  dsimp only at written
  split at written
  · obtain rfl := Option.some.inj written
    exact ⟨[], rfl, absent⟩
  · split at written
    · obtain rfl := Option.some.inj written
      exact ⟨[], rfl, absent⟩
    · split at written
      · obtain rfl := Option.some.inj written
        exact ⟨[], rfl, absent⟩
      · split at written
        · obtain rfl := Option.some.inj written
          exact ⟨[], rfl, absent⟩
        · obtain ⟨host, -, rest⟩ := Option.bind_eq_some_iff.mp written
          split at rest
          · obtain rfl := Option.some.inj rest
            exact ⟨[], rfl, absent⟩
          · next other =>
            obtain rfl := Option.some.inj rest
            refine ⟨_, rfl, ?_⟩
            split
            · exact absent
            · exact other

theorem scheme_of_withAuthority {scheme t : Text} {kind : SchemeKind} {u : Uri}
    (written : withAuthority? scheme kind t = some u) : u.scheme = scheme := by
  unfold withAuthority? at written
  dsimp only at written
  -- A host is read in one of two ways, and everything else in the same.
  split at written
  all_goals
    obtain ⟨host, -, written⟩ := Option.bind_eq_some_iff.mp written
    split at written
    · exact nomatch written
    · split at written
      · exact nomatch written
      · obtain ⟨port, -, written⟩ := Option.bind_eq_some_iff.mp written
        obtain rfl := Option.some.inj written
        rfl

theorem SchemeKind.ofScheme_file : ofScheme "file".toList = file := by decide

/-- A file URI that was read has an authority with a host at most, and the host is not the local
one. -/
theorem authority_of_parse {t : Text} {u : Uri} (written : parse? t = some u)
    (scheme : u.scheme = "file".toList) :
    ∃ host, u.authority = some ⟨[], host, none⟩ ∧ host ≠ "localhost".toList := by
  unfold parse? at written
  obtain ⟨⟨name, rest⟩, -, written⟩ := Option.bind_eq_some_iff.mp written
  dsimp only at written
  -- A URI of another kind keeps its scheme, which is not that of files.
  have other : ∀ kind, SchemeKind.ofScheme name = kind → u.scheme = name → kind = .file := by
    rintro kind rfl same
    rw [← same, scheme, SchemeKind.ofScheme_file]
  split at written
  · exact authority_of_file written
  · next kind => exact nomatch other _ kind (scheme_of_withAuthority written)
  · next kind =>
    split at written
    · exact nomatch other _ kind (scheme_of_withAuthority written)
    · obtain rfl := Option.some.inj written
      exact nomatch other _ kind rfl

/-- The text of a URI of a local file determines its parts. -/
theorem text_eq_iff {path path' : Text} {query fragment : Option Text}
    (plain : ∀ c ∈ ['?', '#'], c ∉ path') :
    (⟨"file".toList, some ⟨[], [], none⟩, path, query, fragment⟩ : Uri).text =
        (⟨"file".toList, some ⟨[], [], none⟩, path', none, none⟩ : Uri).text ↔
      path = path' ∧ query = none ∧ fragment = none := by
  have end' : (⟨"file".toList, some ⟨[], [], none⟩, path', none, none⟩ : Uri).text =
      "file://".toList ++ path' := by
    change "file://".toList ++ (path' ++ []) = _
    rw [List.append_nil]
  have start : (⟨"file".toList, some ⟨[], [], none⟩, path, query, fragment⟩ : Uri).text =
      "file://".toList ++ (path ++ (marked '?' query ++ marked '#' fragment)) := rfl
  rw [end', start, List.append_right_inj]
  constructor
  · intro same
    cases query with
    | some q =>
      refine absurd ?_ (plain '?' (by decide))
      rw [← same]
      exact List.mem_append_right _ List.mem_cons_self
    | none =>
      cases fragment with
      | some f =>
        refine absurd ?_ (plain '#' (by decide))
        rw [← same]
        exact List.mem_append_right _ List.mem_cons_self
      | none => exact ⟨(List.append_nil path).symm.trans same, rfl, rfl⟩
  · rintro ⟨rfl, rfl, rfl⟩
    exact List.append_nil path

theorem notMem_join {c : Char} (h : c ≠ '/') {ps : List Text} (each : ∀ p ∈ ps, c ∉ p) :
    c ∉ Text.join '/' ps := by
  induction ps with
  | nil => exact List.not_mem_nil
  | cons p ps ih =>
    have first := each p List.mem_cons_self
    have rest := ih fun q mem => each q (List.mem_cons_of_mem p mem)
    cases ps with
    | nil => exact first
    | cons q ps =>
      rw [Text.join_cons_of_ne_nil _ _ (List.cons_ne_nil q ps)]
      simp only [List.mem_append, List.mem_cons, not_or]
      exact ⟨first, h, rest⟩

theorem notMem_ofSegments {c : Char} (h : c ∈ ['?', '#']) (names : List Text) :
    c ∉ ofSegments (names.map (Percent.encode Percent.fileNameSet)) := by
  have mark : ∀ c ∈ ['?', '#'], c ≠ '/' ∧ c ∈ ['/', '?', '#'] := by decide
  obtain ⟨no_slash, mark⟩ := mark c h
  unfold ofSegments
  rw [List.mem_cons, not_or]
  refine ⟨no_slash, notMem_join no_slash fun s mem => ?_⟩
  obtain ⟨n, -, rfl⟩ := List.mem_map.mp mem
  exact Percent.notMem_encode mark n

section Places

variable {t : Text} {u c : Uri} {p q : Path}

/-- A file URI that was read and stands for a path has no host. -/
theorem eq_of_toFilePath? (written : parse? t = some u) (scheme : u.scheme = "file".toList)
    (denotes : u.toFilePath? = some p) :
    u = ⟨"file".toList, some ⟨[], [], none⟩, u.path, u.query, u.fragment⟩ := by
  obtain ⟨host, authority, not_local⟩ := authority_of_parse written scheme
  have no_host : host = [] := by
    obtain ⟨-, -, -, hosts, -⟩ := exists_of_toFilePath? denotes
    unfold host? at hosts
    rw [authority] at hosts
    dsimp only at hosts
    by_cases empty : host = []
    · exact empty
    · rw [if_neg empty] at hosts
      rcases hosts with absent | here
      · exact nomatch absent
      · exact absurd (Option.some.inj here) not_local
  subst no_host
  obtain ⟨_, _, path, query, fragment⟩ := u
  dsimp only at scheme authority
  rw [scheme, authority]

/-- The URI of a path, told by the names in another path to the same place. -/
theorem eq_of_ofFilePath? (same : p.same q) (address : ofFilePath? q = some c) :
    c = ⟨"file".toList, some ⟨[], [], none⟩,
      ofSegments (p.names.map (Percent.encode Percent.fileNameSet)), none, none⟩ := by
  have names : p.names = q.names := by
    unfold Path.names
    rw [Path.same_iff.mp same]
  have absolute : q.isAbsolute := by
    unfold ofFilePath? at address
    split at address
    · next absolute => exact absolute
    · exact nomatch address
  rw [ofFilePath?_eq absolute, ← names] at address
  exact (Option.some.inj address).symm

/-- URIs of paths are told apart by their texts. -/
theorem text_eq_iff_of_ofFilePath? (address : ofFilePath? p = some u)
    (address' : ofFilePath? q = some c) : u.text = c.text ↔ u = c := by
  constructor
  · intro text
    rw [eq_of_ofFilePath? (Path.same_refl p) address,
      eq_of_ofFilePath? (Path.same_refl q) address',
      text_eq_iff fun c mem => notMem_ofSegments mem _] at text
    rw [eq_of_ofFilePath? (Path.same_refl p) address,
      eq_of_ofFilePath? (Path.same_refl q) address', text.1]
  · rintro rfl
    rfl

/-- There is one plain URI of a path. -/
theorem eq_of_isPlain (written : parse? t = some u) (scheme : u.scheme = "file".toList)
    (denotes : u.toFilePath? = some p) (same : p.same q) (address : ofFilePath? q = some c)
    (plain : u.IsPlain) : u = c := by
  obtain ⟨ns, all, path⟩ := plain.path
  rw [eq_of_toFilePath? written scheme denotes, eq_of_ofFilePath? same address,
    names_eq_of_plain denotes all path, path, plain.no_query, plain.no_fragment]

/-- Of the URIs that stand for a path, the plain one has the text that the path has. -/
theorem text_eq_iff_isPlain (written : parse? t = some u) (scheme : u.scheme = "file".toList)
    (denotes : u.toFilePath? = some p) (same : p.same q) (address : ofFilePath? q = some c) :
    u.text = c.text ↔ u.IsPlain := by
  constructor
  · intro text
    rw [eq_of_toFilePath? written scheme denotes, eq_of_ofFilePath? same address,
      text_eq_iff fun c mem => notMem_ofSegments mem _] at text
    obtain ⟨path, no_query, no_fragment⟩ := text
    refine ⟨no_query, no_fragment, p.names, ?_, path⟩
    obtain ⟨t, rfl⟩ := Path.eq_root_of_isAbsolute (isAbsolute_of_toFilePath? denotes)
    exact fun n mem => Path.isName_of_mem_names mem
  · intro plain
    rw [eq_of_isPlain written scheme denotes same address plain]

end Places

end Uri

end RuleOff
