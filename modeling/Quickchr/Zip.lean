import Quickchr.MachineState
import Quickchr.Lib.FileTree

/-!
# ZIP extraction

The names of an archive's entries are joined to the destination, which resolves what `..` they
hold. Where a name leads is compared with the destination by the names of the directories.
-/
namespace Quickchr.Zip
open FileTree

/-- How paths are read: what separates names, and which names are those of one file. -/
structure Platform where
  isSep : Char → Bool
  key : String → String

def posix : Platform where
  isSep c := c = '/'
  key := id

def win32 : Platform where
  isSep c := c = '/' || c = '\\'
  key := Text.toUpperCase

def Platform.split (platform : Platform) (path : String) : List String :=
  (path.toList.splitOnP platform.isSep).map String.ofList

/-- An absolute path; there is nothing above its root. -/
structure AbsolutePath where
  root : String
  segments : List String
  trailing : Bool
  deriving DecidableEq, Repr

def resolveSegment (resolved : List String) (segment : String) : List String :=
  if segment = "" ∨ segment = "." then resolved
  else if segment = ".." then resolved.dropLast
  else resolved ++ [segment]

def normalizeString (segments : List String) : List String := segments.foldl resolveSegment []

/-- `path.join` of a directory and a name, which may be anything. -/
def join (platform : Platform) (dir : AbsolutePath) (name : String) : AbsolutePath where
  root := dir.root
  segments := normalizeString (dir.segments ++ platform.split name)
  trailing := name.toList.getLast?.elim dir.trailing platform.isSep

/-- The place a path leads to below its root. -/
def AbsolutePath.place (platform : Platform) (path : AbsolutePath) : Place String :=
  (normalizeString path.segments).map platform.key

abbrev Entries := List (String × List UInt8)

section Extract

variable (platform : Platform) (destDir : AbsolutePath)

def target (entry : String × List UInt8) : Target String (List UInt8) where
  place := (join platform destDir entry.1).place platform
  trailing := (join platform destDir entry.1).trailing
  content := entry.2

def targets (files : Entries) : List (Target String (List UInt8)) :=
  (files.filter fun entry => entry.1.toList.getLast? ≠ some '/').map (target platform destDir)

/-- What is left of the files, and the error, which is none when it is the file system's. -/
def extractZip (unzipSync : List UInt8 → Except String Entries) (zipPath : String)
    (zip : Except String (List UInt8)) (tree : Tree String (List UInt8)) :
    Tree String (List UInt8) × Except (Option QuickCHRError) Unit :=
  match zip with
  | .error message =>
      (tree, .error (some
        { code := .PROCESS_FAILED, message := s!"Cannot read ZIP {zipPath}: {message}" }))
  | .ok data =>
      match unzipSync data with
      | .error message =>
          (tree, .error (some
            { code := .PROCESS_FAILED, message := s!"ZIP extraction failed: {message}" }))
      | .ok files =>
          match mkdir (destDir.place platform) tree with
          | (tree, false) => (tree, .error none)
          | (tree, true) =>
              match extractAll (targets platform destDir files) tree with
              | (tree, false) => (tree, .error none)
              | (tree, true) => (tree, .ok ())

/-- Extraction into a directory changes nothing outside it, whatever files there are. -/
def StaysInside (unzipSync : List UInt8 → Except String Entries) (zipPath : String)
    (zip : Except String (List UInt8)) : Prop :=
  ∀ tree : Tree String (List UInt8), tree.HasDir (destDir.place platform) →
    ∀ q, ¬ destDir.place platform <+: q →
      (extractZip platform destDir unzipSync zipPath zip tree).1 q = tree q

end Extract

section Names

variable {platform : Platform} {destDir : AbsolutePath}

theorem normalizeString_append (a b : List String) :
    normalizeString (a ++ b) = b.foldl resolveSegment (normalizeString a) := List.foldl_append

/-- A segment that names a file or directory. -/
def Named (segment : String) : Prop := segment ≠ "" ∧ segment ≠ "." ∧ segment ≠ ".."

theorem resolveSegment_named {resolved : List String} {segment : String} (h : Named segment) :
    resolveSegment resolved segment = resolved ++ [segment] := by
  obtain ⟨some_, notDot, notUp⟩ := h
  rw [resolveSegment, if_neg (by rw [not_or]; exact ⟨some_, notDot⟩), if_neg notUp]

theorem resolveSegment_all_named {resolved : List String} {segment : String}
    (h : ∀ s ∈ resolved, Named s) : ∀ s ∈ resolveSegment resolved segment, Named s := by
  unfold resolveSegment
  split
  · exact h
  · rename_i notSkipped
    rw [not_or] at notSkipped
    split
    · exact fun s member => h s (List.mem_of_mem_dropLast member)
    · rename_i notUp
      intro s member
      rcases List.mem_append.mp member with before | own
      · exact h s before
      · rw [List.mem_singleton.mp own]
        exact ⟨notSkipped.1, notSkipped.2, notUp⟩

theorem foldl_all_named {segments resolved : List String} (h : ∀ s ∈ resolved, Named s) :
    ∀ s ∈ segments.foldl resolveSegment resolved, Named s := by
  induction segments generalizing resolved with
  | nil => exact h
  | cons segment segments ih => exact ih (resolveSegment_all_named h)

theorem foldl_named {segments resolved : List String} (h : ∀ s ∈ segments, Named s) :
    segments.foldl resolveSegment resolved = resolved ++ segments := by
  induction segments generalizing resolved with
  | nil => exact (List.append_nil resolved).symm
  | cons segment segments ih =>
      obtain ⟨named, rest⟩ := List.forall_mem_cons.mp h
      rw [List.foldl_cons, resolveSegment_named named, ih rest, List.append_assoc]
      rfl

theorem normalizeString_idem {segments : List String} :
    normalizeString (normalizeString segments) = normalizeString segments :=
  foldl_named (foldl_all_named fun _ none => by cases none)

theorem foldl_extends {segments resolved : List String} (h : ".." ∉ segments) :
    resolved <+: segments.foldl resolveSegment resolved := by
  induction segments generalizing resolved with
  | nil => exact List.prefix_rfl
  | cons segment segments ih =>
      rw [List.mem_cons, not_or] at h
      refine List.IsPrefix.trans ?_ (ih h.2)
      unfold resolveSegment
      split
      · exact List.prefix_rfl
      · rw [if_neg (Ne.symm h.1)]
        exact List.prefix_append resolved [segment]

theorem target_place (entry : String × List UInt8) : (target platform destDir entry).place =
    ((platform.split entry.1).foldl resolveSegment (normalizeString destDir.segments)).map
      platform.key := by
  rw [target, AbsolutePath.place, join, normalizeString_idem, normalizeString_append]

/-- A name without `..` leads into the destination, also one that starts with a separator. -/
theorem target_inside {entry : String × List UInt8} (h : ".." ∉ platform.split entry.1) :
    (target platform destDir entry).Inside (destDir.place platform) := by
  have below : destDir.place platform <+: (target platform destDir entry).place := by
    rw [target_place]
    exact (foldl_extends h).map platform.key
  unfold Target.Inside Target.reach
  split
  · by_cases same : destDir.place platform = (target platform destDir entry).place
    · rw [← same]
      exact .inr (List.dropLast_prefix _)
    · exact .inl (prefix_dropLast below same)
  · exact .inl below

end Names

theorem contained_of_inside {dest : Place String} {ts : List (Target String (List UInt8))}
    (h : ∀ t ∈ ts, t.Inside dest) (earlier : List (Place String)) : Contained dest earlier ts := by
  induction ts generalizing earlier with
  | nil => trivial
  | cons t ts ih =>
      obtain ⟨inside, rest⟩ := List.forall_mem_cons.mp h
      exact ⟨inside, .inr (ih rest _)⟩

section Extract

variable {platform : Platform} {destDir : AbsolutePath}
  {unzipSync : List UInt8 → Except String Entries} {zipPath : String} {data : List UInt8}
  {files : Entries}

theorem mkdir_hasDir {tree : Tree String (List UInt8)} {p : Place String} (h : tree.HasDir p) :
    (mkdir p tree).2 = true ∧ ∀ q, (mkdir p tree).1 q = tree q := by
  refine ⟨mkdir_works fun q above isFile => ?_, fun q => ?_⟩
  · obtain ⟨content, isFile⟩ := isFile
    rw [h q above] at isFile
    cases isFile
  · by_cases above : q <+: p
    · exact mkdir_kept (by rw [h q above]; exact Option.some_ne_none _)
    · exact mkdir_others above

theorem extractZip_tree (decoded : unzipSync data = .ok files) {tree : Tree String (List UInt8)}
    (h : tree.HasDir (destDir.place platform)) :
    (extractZip platform destDir unzipSync zipPath (.ok data) tree).1 =
      (extractAll (targets platform destDir files) tree).1 := by
  obtain ⟨works, same⟩ := mkdir_hasDir h
  have tree_ : mkdir (destDir.place platform) tree = (tree, true) :=
    Prod.ext (funext same) works
  unfold extractZip
  simp only [decoded, tree_]
  rcases extractAll (targets platform destDir files) tree with ⟨after, _ | _⟩ <;> rfl

/-- Extraction stays inside if and only if each entry, up to the first that cannot be written in any
case, leads there. -/
theorem extractZip_staysInside_iff (platform : Platform) (destDir : AbsolutePath)
    (unzipSync : List UInt8 → Except String Entries) (zipPath : String) (data : List UInt8)
    (files : Entries) (decoded : unzipSync data = .ok files) :
    StaysInside platform destDir unzipSync zipPath (.ok data) ↔
      Contained (destDir.place platform) [] (targets platform destDir files) := by
  rw [← extractAll_outside_iff]
  constructor
  · intro stays tree hasDir q outside
    rw [← stays tree hasDir q outside, extractZip_tree decoded hasDir]
  · intro stays tree hasDir q outside
    rw [extractZip_tree decoded hasDir]
    exact stays tree hasDir q outside

theorem extractZip_staysInside_of_plain (decoded : unzipSync data = .ok files)
    (plain : ∀ entry ∈ files, ".." ∉ platform.split entry.1) :
    StaysInside platform destDir unzipSync zipPath (.ok data) := by
  have contained : Contained (destDir.place platform) [] (targets platform destDir files) := by
    refine contained_of_inside (fun t member => ?_) []
    obtain ⟨entry, isEntry, rfl⟩ := List.mem_map.mp member
    exact target_inside (plain entry (List.mem_of_mem_filter isEntry))
  intro tree hasDir q outside
  rw [extractZip_tree decoded hasDir]
  exact extractAll_outside_iff.mpr contained tree hasDir q outside

end Extract

def cacheTemp : AbsolutePath where
  root := "/"
  segments := ["cache", ".quickchr-image-a"]
  trailing := false

theorem extractZip_staysInside_iff_image : StaysInside posix cacheTemp
    (fun _ => .ok [("chr-7.20.img", [1]), ("notes/", []), ("/etc/passwd", [2])]) "chr-7.20.img.zip" (.ok []) := by
  refine (extractZip_staysInside_iff posix cacheTemp _ "chr-7.20.img.zip" []
    [("chr-7.20.img", [1]), ("notes/", []), ("/etc/passwd", [2])] rfl).mpr ?_
  refine contained_of_inside (fun t member => ?_) []
  obtain ⟨entry, isEntry, rfl⟩ := List.mem_map.mp member
  have plain : ∀ entry ∈ [("chr-7.20.img", ([1] : List UInt8)), ("notes/", []), ("/etc/passwd", [2])],
      ".." ∉ posix.split entry.1 := by decide
  exact target_inside (plain entry (List.mem_of_mem_filter isEntry))

/-- An entry that leads to another image of the cache, by the separator of either platform. -/
theorem extractZip_staysInside_fails :
    ¬ StaysInside posix cacheTemp (fun _ => .ok [("../chr-7.19.img", [1])]) "chr-7.20.img.zip"
        (.ok []) ∧
      ¬ StaysInside win32 cacheTemp (fun _ => .ok [("..\\chr-7.19.img", [1])]) "chr-7.20.img.zip"
        (.ok []) := by
  constructor
  · intro stays
    have kept := stays (bare (cacheTemp.place posix)) (fun p above => if_pos above)
      ["cache", "chr-7.19.img"] (by decide)
    cases kept
  · intro stays
    have kept := stays (bare (cacheTemp.place win32)) (fun p above => if_pos above)
      ["CACHE", "CHR-7.19.IMG"] (by decide)
    cases kept

end Quickchr.Zip
