/-
How a driver describes a buffer to the controller.

The first entry may point anywhere into a page; the others are whole
pages. There are as many as the buffer needs: none, one, which is then
the second entry of the command, or more, which are in a list to which
the second entry points. A list fills a page of memory at most, and
where it would need more, its last entry leads to another list
(`Listed`). `writeList` is a driver that makes such lists.
-/
import FemuRemap.Model.Transfer

namespace FemuRemap.Transfer

open Lib

variable (p : Paging) (m : Memory)

/-- Word `i` from an address on. -/
def word (addr i : Nat) : Nat :=
  match m.cmbAt addr with
  | some c => leWord (load c.buf (addr - c.base + 8 * i) 8)
  | none => leWord (load m.guest (addr + 8 * i) 8)

/-- The pages that `len` bytes need. -/
def Paging.pages (len : Nat) : Nat := (len + p.pageSize - 1) / p.pageSize

/-- From entry `i` of the list at `addr` on, the pages are listed, with
the further lists at `frames`. -/
def Listed : Nat → Nat → List Nat → List Nat → Prop
  | _, _, frames, [] => frames = []
  | addr, i, frames, page :: pages =>
      if i + 1 = p.maxPrpEnts ∧ pages ≠ [] then
        -- this entry leads to the next list, which goes on with the page
        ∃ frame rest, frames = frame :: rest ∧ word m addr i = frame ∧
          p.Page frame ∧ word m frame 0 = page ∧ p.Page page ∧
          Listed frame 1 rest pages
      else
        word m addr i = page ∧ p.Page page ∧ Listed addr (i + 1) frames pages

/-- The bytes that fit into the page of the first entry. -/
def firstLen (prp1 len : Nat) : Nat :=
  min len (p.pageSize - prp1 % p.pageSize)

/-- The entries of a command describe these pages, behind the part of the
buffer that the first one points to. -/
structure Describes (prp1 prp2 len : Nat) (pages : List Nat) : Prop where
  first : prp1 ≠ 0
  count : pages.length = p.pages (len - firstLen p prp1 len)
  second : pages ≠ [] → prp2 ≠ 0
  single : pages.length = 1 → pages = [prp2] ∧ p.Page prp2
  list : 2 ≤ pages.length → ∃ frames, Listed p m prp2 0 frames pages

/-- The parts of `len` bytes in whole pages. -/
def pageSpans : Nat → List Nat → List Span
  | _, [] => []
  | len, page :: pages =>
      ⟨page, min len p.pageSize⟩
        :: pageSpans (len - min len p.pageSize) pages

/-- The parts of the buffer. -/
def spans (prp1 len : Nat) (pages : List Nat) : List Span :=
  ⟨prp1, firstLen p prp1 len⟩
    :: pageSpans p (len - firstLen p prp1 len) pages

/-- Write word `i` from an address on. -/
def putWord (guest : Bytes) (addr i w : Nat) : Bytes :=
  store guest (addr + 8 * i) (leBytes 8 w)

/-- Make a list of the pages, with further lists at `frames` where they
are needed. -/
def writeList (guest : Bytes) : Nat → Nat → List Nat → List Nat → Bytes
  | _, _, _, [] => guest
  | addr, i, frames, page :: pages =>
      if i + 1 = p.maxPrpEnts ∧ pages ≠ [] then
        match frames with
        | [] => guest
        | frame :: frames =>
            putWord (putWord (writeList guest frame 1 frames pages) frame 0
              page) addr i frame
      else putWord (writeList guest addr (i + 1) frames pages) addr i page

end FemuRemap.Transfer
