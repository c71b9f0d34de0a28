import Converge.Http.Store
import Converge.Proofs.Except
import Converge.Proofs.Http.Joining

/-!
# Whether requests stay in their place

The URL of a request is made of texts that come from outside: the group, the version and the kind of an object, its
namespace and its name. Namespace and name are encoded, and still two of them do not stay where they are put, since no
encoding keeps points from being points. Group, version and plural are not encoded, so they have to be segments as they
stand.

## Main Definitions

* `Http.Url.fits` — a part that is one segment as it stands.
* `Http.ResourcePath.parts` — the parts of the path of an object.

## Main Statements

* `Http.Url.fits_segment_iff` — the only encoded texts that do not stay in their place are the two kinds of points.
* `HttpStore.request_in_place_iff` — which requests stay in their place.
-/

namespace Converge

open Chars

namespace Http

namespace Url

/-! ### Parts that fit -/

/-- A part that is one segment as it stands: it has no slash, nothing that ends a path or is dropped, and does not
consist of points. -/
def fits (form : Form) (part : List Char) : Bool :=
  part.all (fun c => !form.isSlash c && !"?#\t\n\r".toList.contains c) && !isDots part

theorem fits_iff {form : Form} {part : List Char} :
    fits form part ↔ (∀ c ∈ part, form.isSlash c = false ∧ c ∉ "?#\t\n\r".toList) ∧ isDots part = false := by
  simp only [fits, Bool.and_eq_true, List.all_eq_true, Bool.not_eq_true', List.contains_eq_mem,
    decide_eq_false_iff_not]

/-- A text with plain characters at its ends is clean exactly if it has no tabs and line breaks. -/
theorem cleaned_eq_iff {text : List Char} (hhead : ∀ c ∈ text.head?, 0x20 < c.toNat)
    (hlast : ∀ c ∈ text.getLast?, 0x20 < c.toNat) : cleaned text = text ↔ ∀ c ∈ text, c ∉ "\t\n\r".toList := by
  have hends : ∀ part : List Char, (∀ c ∈ part.head?, 0x20 < c.toNat) →
      part.dropWhile (fun c => decide (c.toNat ≤ 0x20)) = part := by
    intro part hpart
    cases part with
    | nil => rfl
    | cons c part =>
        have hc := hpart c rfl
        rw [List.dropWhile_cons_of_neg]
        simpa using hc
  have htrimmed : cleaned text = text.filter fun c => !"\t\n\r".toList.contains c := by
    simp only [cleaned]
    rw [hends text hhead, hends text.reverse (by rwa [List.head?_reverse]), List.reverse_reverse]
  rw [htrimmed, List.filter_eq_self]
  simp only [Bool.not_eq_true', List.contains_eq_mem, decide_eq_false_iff_not]

/-- **A reference leads to where its parts say exactly if each of them fits.** -/
theorem join_eq_iff_fits {base : Url} {parts : List (List Char)} (hparts : parts ≠ [])
    (hhead : ∀ c ∈ (Chars.join ['/'] parts).head?, 0x20 < c.toNat)
    (hlast : ∀ c ∈ (Chars.join ['/'] parts).getLast?, 0x20 < c.toNat) :
    base.join (String.ofList (Chars.join ['/'] parts)) = base.placed parts ↔
      ∀ part ∈ parts, fits (formOf base.scheme) part := by
  rw [join_eq_iff hparts, cleaned_eq_iff hhead hlast, cutQuery_eq_iff]
  have hmarks : ∀ c : Char, c ∉ "?#\t\n\r".toList ↔ (c ≠ '?' ∧ c ≠ '#') ∧ c ∉ "\t\n\r".toList := by
    intro c
    simp [and_assoc]
  constructor
  · rintro ⟨hclean, ⟨hquery, hhash⟩, hplain⟩ part hpart
    refine fits_iff.2 ⟨fun c hc => ⟨(hplain part hpart).1 c hc, (hmarks c).2 ⟨⟨?_, ?_⟩, ?_⟩⟩, (hplain part hpart).2⟩
    · rintro rfl
      exact hquery (mem_join_of_mem hpart hc)
    · rintro rfl
      exact hhash (mem_join_of_mem hpart hc)
    · exact hclean c (mem_join_of_mem hpart hc)
  · intro h
    have hchars : ∀ c ∈ Chars.join ['/'] parts, c ∉ "?#\t\n\r".toList := by
      intro c hc
      obtain ⟨part, hpart, hmem⟩ | rfl := mem_or_eq_of_mem_join hc
      · exact ((fits_iff.1 (h part hpart)).1 c hmem).2
      · decide
    refine ⟨fun c hc => ((hmarks c).1 (hchars c hc)).2, ⟨?_, ?_⟩, fun part hpart => ?_⟩
    · intro hmem
      exact hchars '?' hmem (by decide)
    · intro hmem
      exact hchars '#' hmem (by decide)
    · obtain ⟨hplain, hdots⟩ := fits_iff.1 (h part hpart)
      exact ⟨fun c hc => (hplain c hc).1, hdots⟩

/-! ### Encoded parts -/

/-- What reads as points stands for points. -/
theorem bytes_of_plainPoints {segment : List Char} {count : Nat}
    (h : plainPoints segment = List.replicate count '.') : Percent.bytes segment = List.replicate count 0x2E := by
  induction count generalizing segment with
  | zero =>
      cases segment with
      | nil => rfl
      | cons c segment =>
          unfold plainPoints at h
          split at h
          · split at h <;> cases h
          · cases h
          · next hnil => cases hnil
  | succ count ih =>
      rw [List.replicate_succ] at h ⊢
      unfold plainPoints at h
      split at h
      · next c rest =>
          split at h
          · next hc =>
              rw [← ih (List.cons.inj h).2]
              simp only [Bool.or_eq_true, decide_eq_true_eq] at hc
              obtain rfl | rfl := hc
              · rfl
              · rfl
          · cases (List.cons.inj h).1
      · next c rest _ =>
          obtain ⟨rfl, hrest⟩ := List.cons.inj h
          rw [Percent.bytes_cons_of_ne (by decide), ih hrest]
          rfl
      · cases h

theorem isDots_segment_iff {text : List Char} : isDots (Percent.segment text) ↔ text = ['.'] ∨ text = ['.', '.'] := by
  have hpoints : ∀ count, plainPoints (Percent.segment text) = List.replicate count '.' →
      text = List.replicate count '.' := by
    intro count h
    have hpoint : String.utf8EncodeChar '.' = [0x2E] := rfl
    have hbytes : Percent.bytes (Percent.segment text) =
        (List.replicate count '.').flatMap String.utf8EncodeChar := by
      rw [bytes_of_plainPoints h, List.flatMap_replicate, hpoint, List.flatten_replicate_singleton]
    have hdecoded := Percent.decode?_eq_some hbytes
    rw [Percent.segment, Percent.decode?_encode rfl, Option.some.injEq] at hdecoded
    exact String.ofList_injective hdecoded
  simp only [isDots, Bool.or_eq_true, decide_eq_true_eq]
  constructor
  · rintro (h | h)
    · exact .inl (hpoints 1 h)
    · exact .inr (hpoints 2 h)
  · rintro (rfl | rfl)
    · exact .inl rfl
    · exact .inr rfl

/-- **The only encoded texts that do not stay in their place are the two kinds of points.** -/
theorem fits_segment_iff {form : Form} {text : String} :
    fits form (Percent.segment text.toList) ↔ text ≠ "." ∧ text ≠ ".." := by
  have hpoint : text = "." ↔ text.toList = ['.'] := String.toList_inj.symm
  have hpoints : text = ".." ↔ text.toList = ['.', '.'] := String.toList_inj.symm
  rw [ne_eq, ne_eq, hpoint, hpoints]
  have hmarks : "?#\t\n\r".toList.all fun c => !Percent.isPathPlain c := by decide
  rw [fits_iff, ← not_or, ← isDots_segment_iff, Bool.not_eq_true, and_iff_right_iff_imp]
  intro _ c hc
  obtain ⟨hplain, hslash, hbackslash⟩ := Percent.plain_of_mem_segment hc
  constructor
  · rw [Bool.eq_false_iff]
    intro h
    exact (eq_of_isSlash h).elim hslash hbackslash
  · intro hmem
    have hmark := List.all_eq_true.1 hmarks c hmem
    rw [hplain] at hmark
    cases hmark

end Url

/-! ### Paths of objects -/

namespace ResourcePath

/-- The parts of the path of an object: what stands for its group and version, its namespace if it has one, its kind
in the plural, and its name. -/
def parts (plurals : Table String String) (key : ObjectKey) : List (List Char) :=
  (if key.type.group.isEmpty then ["api".toList] else ["apis".toList, key.type.group.toList])
    ++ [key.type.version.toList]
    ++ (match key.scope with
        | some scope => ["namespaces".toList, Percent.segment scope.toList]
        | none => [])
    ++ [plural plurals key.type.kind, Percent.segment key.name.toList]

variable (plurals : Table String String) (key : ObjectKey)

theorem parts_ne_nil : parts plurals key ≠ [] := by
  simp [parts]

theorem within_none : within none = [] := rfl

theorem within_some (scope : String) :
    within (some scope) = "/namespaces/".toList ++ Percent.segment scope.toList := rfl

theorem object_eq : object plurals key = '/' :: Chars.join ['/'] (parts plurals key) := by
  have hapi : "/api/".toList = '/' :: "api".toList ++ ['/'] := by decide
  have hapis : "/apis/".toList = '/' :: "apis".toList ++ ['/'] := by decide
  have hnamespaces : "/namespaces/".toList = '/' :: "namespaces".toList ++ ['/'] := by decide
  rw [object, collection, root, hapi, hapis, parts]
  cases key.type.group.isEmpty <;> cases key.scope <;>
    simp only [within_none, within_some, hnamespaces, Bool.false_eq_true, ↓reduceIte, Chars.join, List.cons_append,
      List.nil_append, List.append_assoc, List.append_nil]

/-- The path of an object starts with a letter. -/
theorem head?_join_parts : (Chars.join ['/'] (parts plurals key)).head? = some 'a' := by
  rw [parts]
  cases key.type.group.isEmpty <;> cases key.scope <;> rfl

/-- The path of an object ends with its name, or with a slash. -/
theorem of_getLast?_join_parts {c : Char} (h : c ∈ (Chars.join ['/'] (parts plurals key)).getLast?) :
    c = '/' ∨ c ∈ Percent.segment key.name.toList := by
  have hobject : (object plurals key).getLast? = some c := by
    rw [object_eq, List.getLast?_cons, h, Option.getD_some]
  rw [object, List.append_assoc, List.getLast?_append, List.singleton_append, List.getLast?_cons, Option.some_or,
    Option.some.injEq] at hobject
  cases hlast : (Percent.segment key.name.toList).getLast? with
  | none => exact .inl (hobject.symm.trans (congrArg (·.getD '/') hlast))
  | some last =>
      rw [hlast, Option.getD_some] at hobject
      exact .inr (hobject ▸ List.mem_of_getLast? hlast)

/-- **The path of an object has a place for each of its parts** exactly if group, version and plural are segments as
they stand, and neither the namespace nor the name consists of points. -/
theorem fits_parts_iff {form : Url.Form} :
    (∀ part ∈ parts plurals key, Url.fits form part) ↔
      (Url.fits form key.type.group.toList ∧ Url.fits form key.type.version.toList ∧
        Url.fits form (plural plurals key.type.kind)) ∧
        (∀ scope, key.scope = some scope → scope ≠ "." ∧ scope ≠ "..") ∧ key.name ≠ "." ∧ key.name ≠ ".." := by
  have hfixed : Url.fits form "api".toList ∧ Url.fits form "apis".toList ∧ Url.fits form "namespaces".toList := by
    cases form <;> decide
  obtain ⟨hapi, hapis, hnamespaces⟩ := hfixed
  have hroot : (∀ part ∈ if key.type.group.isEmpty then ["api".toList] else ["apis".toList, key.type.group.toList],
      Url.fits form part) ↔ Url.fits form key.type.group.toList := by
    cases hgroup : key.type.group.isEmpty with
    | true =>
        have hempty : Url.fits form key.type.group.toList := by
          rw [String.isEmpty_iff.1 hgroup]
          rfl
        simp only [↓reduceIte, List.forall_mem_singleton, hapi, hempty]
    | false =>
        simp only [Bool.false_eq_true, ↓reduceIte, List.forall_mem_cons, hapis, true_and, List.not_mem_nil,
          false_imp_iff, implies_true, and_true]
  have hscope : (∀ part ∈ (match key.scope with
      | some scope => ["namespaces".toList, Percent.segment scope.toList]
      | none => []), Url.fits form part) ↔ ∀ scope, key.scope = some scope → scope ≠ "." ∧ scope ≠ ".." := by
    cases key.scope with
    | none => simp
    | some scope =>
        simp only [List.forall_mem_cons, hnamespaces, true_and, Url.fits_segment_iff, Option.some.injEq, forall_eq',
          List.not_mem_nil, false_imp_iff, implies_true, and_true]
  simp only [parts, List.forall_mem_append, hroot, hscope, List.forall_mem_cons, Url.fits_segment_iff,
    List.not_mem_nil, false_imp_iff, implies_true, and_true]
  constructor
  · rintro ⟨⟨⟨hgroup, hversion⟩, hscope⟩, hplural, hname⟩
    exact ⟨⟨hgroup, hversion, hplural⟩, hscope, hname⟩
  · rintro ⟨⟨hgroup, hversion, hplural⟩, hscope, hname⟩
    exact ⟨⟨⟨hgroup, hversion⟩, hscope⟩, hplural, hname⟩

end ResourcePath

end Http

namespace HttpStore

open Http

/-! ### Requests -/

/-- The URL of an object leads to the parts of its path exactly if each of them fits. -/
theorem objectUrl_eq_iff (store : HttpStore) (key : ObjectKey) :
    store.objectUrl key = store.base.placed (ResourcePath.parts store.plurals key) ↔
      ∀ part ∈ ResourcePath.parts store.plurals key, Url.fits (Url.formOf store.base.scheme) part := by
  have hhead := ResourcePath.head?_join_parts store.plurals key
  have hpath : (ResourcePath.object store.plurals key).dropWhile (· = '/') =
      Chars.join ['/'] (ResourcePath.parts store.plurals key) := by
    rw [ResourcePath.object_eq]
    cases hjoin : Chars.join ['/'] (ResourcePath.parts store.plurals key) with
    | nil =>
        rw [hjoin] at hhead
        cases hhead
    | cons c rest =>
        rw [hjoin] at hhead
        cases hhead
        rfl
  rw [objectUrl, urlOf, hpath]
  refine Url.join_eq_iff_fits (ResourcePath.parts_ne_nil _ _) ?_ ?_
  · intro c hc
    rw [hhead] at hc
    cases hc
    decide
  · intro c hc
    obtain rfl | hmem := ResourcePath.of_getLast?_join_parts _ _ hc
    · decide
    · exact Percent.lt_toNat_of_isPathPlain (Percent.plain_of_mem_segment hmem).1

/-- The URL at which a store is taken is a folder. -/
theorem exists_folder_of_folderAt {text : String} {base : Url} (h : folderAt text = .ok base) :
    ∃ folder, base.path = folder ++ [""] := by
  unfold folderAt at h
  split at h
  · cases h
  · cases h
  · next url _ =>
      split at h
      · cases h
        rw [Url.asFolder]
        split
        · next hfolder =>
            obtain ⟨folder, hpath⟩ := List.getLast?_eq_some_iff.1 hfolder
            exact ⟨folder, hpath⟩
        · exact ⟨url.path, rfl⟩
      · cases h

/-- Of the calls about an object all but its creation go to the URL of the object. -/
theorem exists_request (store : HttpStore) {call : StoreCall} {key : ObjectKey} (hkey : call.key? = some key)
    (hcreate : ∀ document, call ≠ .create document) :
    ∃ request, store.request call = .ok (request, .object key) ∧ request.url = store.objectUrl key := by
  cases call with
  | get | patch | delete =>
      cases hkey
      exact ⟨_, rfl, rfl⟩
  | create document => exact absurd rfl (hcreate document)
  | update document =>
      have hnamed : ObjectKey.ofDocument document = .ok key := by
        cases hdocument : ObjectKey.ofDocument document with
        | error e => simp [StoreCall.key?, hdocument, Except.toOption] at hkey
        | ok other => simpa [StoreCall.key?, hdocument, Except.toOption] using hkey
      have hkeyOf : ObjectStore.keyOf document = .ok key := mapError_eq_ok_iff.2 hnamed
      exact ⟨store.message .put (store.objectUrl key) (some (jsonBody document)),
        bind_eq_ok_iff.2 ⟨key, hkeyOf, rfl⟩, rfl⟩
  | list => cases hkey

/-- **Which requests stay in their place.** Every call about an object but its creation sends one request. Its URL is
that of the store with the parts of the path of the object behind it, each as one segment, and without a query, exactly
if group, version and plural are segments as they stand, and neither the namespace nor the name consists of points. The
segments of namespace and name are always decoded as these. -/
theorem request_in_place_iff {store : HttpStore} {text : String} (accepted : folderAt text = .ok store.base)
    {call : StoreCall} {key : ObjectKey} (hkey : call.key? = some key) (hcreate : ∀ document, call ≠ .create document) :
    let form := Url.formOf store.base.scheme
    ∃ folder request, store.base.path = folder ++ [""] ∧ store.request call = .ok (request, .object key) ∧
      (request.url = { store.base with
            path := folder ++ (ResourcePath.parts store.plurals key).map Url.written, query := none } ↔
          (Url.fits form key.type.group.toList ∧ Url.fits form key.type.version.toList ∧
            Url.fits form (ResourcePath.plural store.plurals key.type.kind)) ∧
            (∀ scope, key.scope = some scope → scope ≠ "." ∧ scope ≠ "..") ∧ key.name ≠ "." ∧ key.name ≠ "..") ∧
      ∀ name ∈ key.name :: key.scope.toList,
        Percent.decode? (Url.written (Percent.segment name.toList)).toList = some name := by
  intro form
  obtain ⟨folder, hfolder⟩ := exists_folder_of_folderAt accepted
  obtain ⟨request, hrequest, hurl⟩ := exists_request store hkey hcreate
  have hplaced : store.base.placed (ResourcePath.parts store.plurals key) = { store.base with
      path := folder ++ (ResourcePath.parts store.plurals key).map Url.written, query := none } := by
    rw [Url.placed, hfolder, List.dropLast_concat]
  refine ⟨folder, request, hfolder, hrequest, ?_, ?_⟩
  · rw [hurl, ← hplaced, objectUrl_eq_iff, ResourcePath.fits_parts_iff]
  · intro name _
    have hwritten : (Url.written (Percent.segment name.toList)).toList = Percent.segment name.toList := by
      rw [Url.written, String.toList_ofList]
      exact Percent.encode_eq_self fun c hc => (Percent.plain_of_mem_segment hc).1
    rw [hwritten, Percent.decode?_segment]

/-- The store at a folder of the machine itself. -/
def atFolder (folder : List String) : HttpStore :=
  ⟨⟨"http", .name "localhost", some 8001, folder ++ [""], none⟩, none, Table.empty⟩

/-- A blank in a namespace and a slash in a name stay in their places. -/
theorem request_in_place_of_encoded :
    let store := atFolder ["v"]
    let key : ObjectKey := ⟨⟨"apps", "v1", "Deployment"⟩, some "a b", "x/y"⟩
    folderAt "http://localhost:8001/v" = .ok store.base ∧
      ∃ request, store.request (.delete key) = .ok (request, .object key) ∧
        request.url.path = ["v", "apis", "apps", "v1", "namespaces", "a%20b", "deployments", "x%2Fy"] := by
  intro store key
  have accepted : folderAt "http://localhost:8001/v" = .ok store.base := by decide +kernel
  obtain ⟨folder, request, hfolder, hrequest, hplace, -⟩ :=
    request_in_place_iff accepted (show (StoreCall.delete key).key? = some key from rfl) fun _ h => nomatch h
  obtain rfl : ["v"] = folder := List.append_cancel_right hfolder
  have hurl := hplace.2 ⟨by decide +kernel, by decide +kernel, by decide +kernel⟩
  refine ⟨accepted, request, hrequest, ?_⟩
  rw [hurl]
  decide +kernel

/-- The removal of an object whose name consists of points goes to its namespace, and the kind of an object can lead to
the URL of another one. -/
theorem requests_out_of_place :
    let store := atFolder []
    let document (kind name : String) := Document.ofEntries [("apiVersion", .string "v1"), ("kind", .string kind),
      ("metadata", .ofEntries [("name", .string name), ("namespace", .string "default")])]
    folderAt "http://localhost:8001" = .ok store.base ∧
      (∃ key request, ObjectKey.ofDocument (document "ConfigMap" "..") = .ok key ∧
        store.request (.delete key) = .ok (request, .object key) ∧
        request.url.path = ["api", "v1", "namespaces", "default", ""]) ∧
      ∃ key other, ObjectKey.ofDocument (document "ConfigMaps/b#" "a") = .ok key ∧
        ObjectKey.ofDocument (document "ConfigMap" "b") = .ok other ∧ key ≠ other ∧
        store.objectUrl key = store.objectUrl other := by
  intro store document
  let points : ObjectKey := ⟨⟨"", "v1", "ConfigMap"⟩, some "default", ".."⟩
  refine ⟨by decide +kernel, ⟨points, _, by decide +kernel, rfl, by decide +kernel⟩,
    ⟨⟨"", "v1", "ConfigMaps/b#"⟩, some "default", "a"⟩, ⟨⟨"", "v1", "ConfigMap"⟩, some "default", "b"⟩,
    by decide +kernel, by decide +kernel, by decide +kernel, by decide +kernel⟩

end HttpStore

end Converge
