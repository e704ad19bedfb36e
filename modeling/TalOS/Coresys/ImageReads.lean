-- SUMMARY: What is laid out in an image is what is read by paths after the image has been loaded.
import TalOS.Coresys.FileRuns

/-!
# Reading a loaded image

Laying out a tree as an image, loading it and reading it by paths gives the tree back, in any
state that a run reaches; and what could be read before can still be read.
-/

open MachineInt

namespace TalOS

open Hierarchy

variable {s : Ramfs} {path rel : List UInt8} {p : List (List UInt8)} {es : DirEntries} {fs : Files}
  {e : Entry (List UInt8)}

/-- A heap with room for a tree is larger than its image. -/
theorem image_length_lt (hlegal : es.LegalNames) (hok : s.heap.Ok) (hfits : s.Fits es.cost) :
    es.image.length < 2 ^ 32 := by
  have hcost := length_slots_le_cost es
  have hhigh := hok.high
  have habove := hok.above
  unfold Ramfs.Fits Kheap.limit at hfits
  rw [length_image hlegal, DirEntries.dataStart]
  unfold SIZEOF_INITRD_HEADER SIZEOF_INITRD_FILE_HEADER at *
  omega

theorem map_stepOf (hplain : PlainPath p) : p.map stepOf = p.map .entry := by
  refine List.map_congr_left fun word hword => ?_
  rw [stepOf, if_neg (hplain word hword).2.1, if_neg (hplain word hword).2.2]

/-- What a path leads to below a directory that a path leads to. -/
theorem Files.read_joinPath (hr : fs.Rooted) (hlookup : fs.lookup path = some p) (hplain : PlainPath (comps rel)) :
    fs.read (joinPath path rel) = fs (p ++ comps rel) := by
  rw [Files.read, Files.lookup, comps_joinPath, List.map_append, follow_append, ← Files.lookup, hlookup,
    Option.bind_some, map_stepOf hplain]
  exact hr.read_entries

/-- Where more places hold something, more paths lead to something. -/
theorem Files.read_mono {fs' : Files} (hsub : ∀ q e, fs q = some e → fs' q = some e) (hread : fs.read path = some e) :
    fs'.read path = some e := by
  obtain ⟨q, hlookup, hq⟩ := Option.bind_eq_some_iff.mp hread
  have hlookup' : fs'.lookup path = some q := follow_mono hsub hlookup
  rw [Files.read, hlookup', Option.bind_some, hsub q e hq]

/-- The file in the directory is found. -/
example : fileAndDirectory.entries.find [[0x64], [0x67]] = some (.file [4]) := by decide

end TalOS
