import FfiHeaders.Header.Path
import Mathlib.Data.List.Nodup

/-!
# Modules that share a header

The path of a header is its module's path with slashes between the names, where the root module is called
after the library. Two modules can therefore have one header, but only if this renaming makes them alike.
-/
namespace FfiHeaders.Header

variable {libName : String} {ns ms p q : List String}

theorem splitOn_intercalate_slash (hne : ns ≠ []) (hns : ∀ n ∈ ns, '/' ∉ n.toList) :
    (String.intercalate "/" ns).toList.splitOn '/' = ns.map String.toList := by
  have hlist : (String.intercalate "/" ns).toList = ['/'].intercalate (ns.map String.toList) :=
    String.toList_intercalate
  rw [hlist]
  refine List.splitOn_intercalate '/' (fun l hl => ?_) (by simpa using hne)
  obtain ⟨n, hn, rfl⟩ := List.mem_map.1 hl
  exact hns n hn

/-- Names without slashes can be told from the text that joins them. -/
theorem intercalate_slash_inj (hn : ns ≠ []) (hm : ms ≠ []) (hns : ∀ n ∈ ns, '/' ∉ n.toList)
    (hms : ∀ n ∈ ms, '/' ∉ n.toList) :
    String.intercalate "/" ns = String.intercalate "/" ms ↔ ns = ms := by
  constructor
  · intro h
    have hsplit := congrArg (fun s : String => s.toList.splitOn '/') h
    rw [splitOn_intercalate_slash hn hns, splitOn_intercalate_slash hm hms] at hsplit
    exact List.map_injective_iff.2 (fun _ _ => String.toList_injective) hsplit
  · exact congrArg _

/-! ### Names in a header's path -/

theorem segments_ne_nil (h : ms ≠ []) : segments libName ms ≠ [] := by
  match ms with
  | [] => exact absurd rfl h
  | [m] =>
    rw [segments]
    split <;> exact List.cons_ne_nil _ _
  | m :: m' :: ms => exact List.cons_ne_nil _ _

theorem mem_of_mem_segments {n : String} (h : n ∈ segments libName ms) : n = libName ∨ n ∈ ms := by
  match ms with
  | [] => cases h
  | [m] =>
    rw [segments] at h
    split at h
    · simp only [List.mem_cons, List.not_mem_nil, or_false, or_self] at h
      exact Or.inl h
    · exact Or.inr h
  | m :: m' :: ms =>
    rw [segments] at h
    · rcases List.mem_cons.1 h with rfl | h
      · split
        · exact Or.inl rfl
        · exact Or.inr List.mem_cons_self
      · exact Or.inr (List.mem_cons_of_mem m h)
    · exact nofun

/-- Outside the root module nothing is renamed. -/
theorem segments_of_head?_ne (h : ms.head? ≠ some "ffi") : segments libName ms = ms := by
  match ms with
  | [] => rfl
  | [m] =>
    have hm : m ≠ rootModule := fun hm => h (congrArg some hm)
    rw [segments, if_neg hm]
  | m :: m' :: ms =>
    have hm : m ≠ rootModule := fun hm => h (congrArg some hm)
    rw [segments, if_neg hm]
    exact nofun

/-- Below the root module the library's name stands first. -/
theorem segments_root_cons (libName : String) (ms : List String) :
    segments libName ("ffi" :: ms) = libName :: if ms = [] then [libName] else ms := by
  cases ms with
  | nil => rfl
  | cons m ms => rfl

theorem slash_not_mem_of_mem_segments (hlib : '/' ∉ libName.toList)
    (hps : ∀ n ∈ p, '/' ∉ n.toList) : ∀ n ∈ segments libName p, '/' ∉ n.toList := by
  intro n hn
  rcases mem_of_mem_segments hn with rfl | hn
  · exact hlib
  · exact hps n hn

theorem path_eq_iff_segments (hlib : '/' ∉ libName.toList) (hp : p ≠ []) (hq : q ≠ [])
    (hps : ∀ n ∈ p, '/' ∉ n.toList) (hqs : ∀ n ∈ q, '/' ∉ n.toList) :
    path libName p = path libName q ↔ segments libName p = segments libName q := by
  rw [path, path, String.append_left_inj]
  exact intercalate_slash_inj (segments_ne_nil hp) (segments_ne_nil hq)
    (slash_not_mem_of_mem_segments hlib hps) (slash_not_mem_of_mem_segments hlib hqs)

/-! ### The aggregate header -/

/-- The header of a module in the root module is in the library's directory, whatever its name. -/
theorem path_root_ne_aggregate (libName : String) (ms : List String) :
    path libName ("ffi" :: ms) ≠ aggregate libName := by
  intro h
  rw [path, aggregate, String.append_left_inj, segments_root_cons,
    String.intercalate_cons_of_ne_nil (by split <;> simp_all)] at h
  -- The two texts begin alike, but the path goes on.
  have hlength := congrArg String.length h
  simp only [String.length_append] at hlength
  have hslash : "/".length = 1 := rfl
  omega

theorem path_eq_aggregate_iff (hlib : '/' ∉ libName.toList) (hp : p ≠ [])
    (hps : ∀ n ∈ p, '/' ∉ n.toList) :
    path libName p = aggregate libName ↔ p = [libName] ∧ libName ≠ "ffi" := by
  by_cases hroot : p.head? = some "ffi"
  · obtain ⟨ms, rfl⟩ := List.head?_eq_some_iff.1 hroot
    refine iff_of_false (path_root_ne_aggregate libName ms) ?_
    rintro ⟨h, hne⟩
    exact hne (List.head_eq_of_cons_eq h).symm
  · have haggregate : aggregate libName = String.intercalate "/" [libName] ++ ".h" := by
      rw [String.intercalate_singleton, aggregate]
    have hne : p = [libName] → libName ≠ "ffi" := by
      rintro rfl rfl
      exact hroot rfl
    rw [path, segments_of_head?_ne hroot, haggregate, String.append_left_inj,
      intercalate_slash_inj hp (List.cons_ne_nil _ _) hps (by simpa using hlib)]
    exact ⟨fun h => ⟨h, hne h⟩, And.left⟩

/-! ### Shared headers -/

/-- Modules in the root module share a header only if they are the root and its child of the library's
name. -/
theorem segments_root_eq_root_iff :
    segments libName ("ffi" :: p) = segments libName ("ffi" :: q) ↔
      p = q ∨ p = [] ∧ q = [libName] ∨ p = [libName] ∧ q = [] := by
  rw [segments_root_cons, segments_root_cons, List.cons_inj_right]
  by_cases hp : p = []
  · by_cases hq : q = []
    · simp [hp, hq]
    · simp [hp, hq, eq_comm]
  · by_cases hq : q = []
    · simp [hp, hq]
    · simp [hp, hq]

theorem segments_root_eq_iff (hq : q.head? ≠ some "ffi") :
    segments libName ("ffi" :: p) = segments libName q ↔
      p ≠ [] ∧ q = libName :: p ∨ p = [] ∧ q = [libName, libName] := by
  rw [segments_root_cons, segments_of_head?_ne hq, eq_comm]
  by_cases hp : p = []
  · simp [hp]
  · simp [hp]

/-- Two modules of the root module, or two outside of it, share a header only if they are one, or the root
and its child of the library's name. A module of the root module shares one with that outside which is
called after the library in its place. The aggregate header is shared with the module called after the
library, and not with one of the root module. -/
theorem path_shared_iff (hlib : '/' ∉ libName.toList) (hp : p ≠ []) (hq : q ≠ [])
    (hps : ∀ n ∈ p, '/' ∉ n.toList) (hqs : ∀ n ∈ q, '/' ∉ n.toList) :
    ofModule (.text libName) (p.map .text) = .ok (path libName p) ∧
      (p.head? = some "ffi" → q.head? = some "ffi" →
        (path libName p = path libName q ↔
          p = q ∨ p = ["ffi"] ∧ q = ["ffi", libName] ∨ p = ["ffi", libName] ∧ q = ["ffi"])) ∧
      (p.head? ≠ some "ffi" → q.head? ≠ some "ffi" →
        (path libName p = path libName q ↔ p = q)) ∧
      (p.head? = some "ffi" → q.head? ≠ some "ffi" →
        (path libName p = path libName q ↔
          2 ≤ p.length ∧ q = libName :: p.tail ∨ p = ["ffi"] ∧ q = [libName, libName])) ∧
      (path libName p = aggregate libName ↔ p = [libName] ∧ libName ≠ "ffi") ∧
      ∀ lib ms, path lib ("ffi" :: ms) ≠ aggregate lib := by
  refine ⟨ofModule_texts libName hp, fun hpr hqr => ?_, fun hpr hqr => ?_, fun hpr hqr => ?_,
    path_eq_aggregate_iff hlib hp hps, path_root_ne_aggregate⟩
  · rw [path_eq_iff_segments hlib hp hq hps hqs]
    obtain ⟨p, rfl⟩ := List.head?_eq_some_iff.1 hpr
    obtain ⟨q, rfl⟩ := List.head?_eq_some_iff.1 hqr
    simp [segments_root_eq_root_iff]
  · rw [path_eq_iff_segments hlib hp hq hps hqs, segments_of_head?_ne hpr, segments_of_head?_ne hqr]
  · rw [path_eq_iff_segments hlib hp hq hps hqs]
    obtain ⟨p, rfl⟩ := List.head?_eq_some_iff.1 hpr
    have hlength : 2 ≤ ("ffi" :: p).length ↔ p ≠ [] := by
      cases p <;> simp
    rw [segments_root_eq_iff hqr, hlength]
    simp

theorem path_shared_iff_lib :
    path "lib" ["ffi"] = path "lib" ["ffi", "lib"] ∧ path "lib" ["ffi", "ipc"] = path "lib" ["lib", "ipc"] ∧
      path "lib" ["lib"] = aggregate "lib" := by
  have hlib : '/' ∉ "lib".toList := by decide
  have hroot := path_shared_iff (p := ["ffi"]) (q := ["ffi", "lib"]) hlib (by decide) (by decide)
    (by decide) (by decide)
  have hrenamed := path_shared_iff (p := ["ffi", "ipc"]) (q := ["lib", "ipc"]) hlib (by decide)
    (by decide) (by decide) (by decide)
  have hmodule := path_shared_iff (p := ["lib"]) (q := ["ffi"]) hlib (by decide) (by decide)
    (by decide) (by decide)
  refine ⟨(hroot.2.1 rfl rfl).2 ?_, (hrenamed.2.2.2.1 rfl (by decide)).2 ?_, hmodule.2.2.2.2.1.2 ?_⟩
  · exact Or.inr (Or.inl ⟨rfl, rfl⟩)
  · exact Or.inl ⟨Nat.le_refl 2, rfl⟩
  · exact ⟨rfl, by decide⟩

end FfiHeaders.Header
