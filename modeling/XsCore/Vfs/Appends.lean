import XsCore.Vfs.Content

/-!
# Appending writes

A write to a description opened for append takes two steps: `stat` reads the size without the vfs
lock and puts the description's offset there, then `write_node` stores at that offset under the
lock.  The descriptions of one file take these steps in any interleaving.
-/

namespace XsCore.Vfs

/-- The bytes one `write_node` stored. -/
structure Stored where
  start : Nat
  count : Nat
  src : Nat → UInt8

structure AppendFile where
  node : Vnode
  offset : Nat → UInt64
  blocks : List Stored

/-- What `stat_node_id` looks at: an id in the ranges of procfs is taken for a process, which has
the size 0 or is not found. -/
inductive Stated where
  | node
  | process
  | missing

inductive AppendStep where
  | stat (description : Nat) (found : Stated)
  | write (description : Nat) (length : UInt64) (src : Nat → UInt8) (pages : Nat) (synced : Bool)

namespace AppendFile

def step (s : AppendFile) : AppendStep → AppendFile
  | .stat d .node => { s with offset := Function.update s.offset d (UInt64.ofNat s.node.size) }
  | .stat d .process => { s with offset := Function.update s.offset d 0 }
  | .stat _ .missing => s
  | .write d length src pages synced =>
      match writeNode s.node (s.offset d) length src pages with
      | (node, none) => { s with node }
      | (node, some written) =>
          { node
            blocks := s.blocks ++ [⟨(s.offset d).toNat, written, src⟩]
            offset :=
              if synced && (0 < written || length == 0) then
                Function.update s.offset d (s.offset d + UInt64.ofNat written)
              else s.offset }

/-- Every stored block is still in the file, and later blocks lie behind earlier ones. -/
structure Intact (s : AppendFile) : Prop where
  writable : Writable s.node
  kept : ∀ b ∈ s.blocks, b.start + b.count ≤ s.node.size ∧
    ∀ i < b.count, s.node.contents.byte (b.start + i) = b.src i
  apart : s.blocks.Pairwise fun a b => a.start + a.count ≤ b.start

def AtEnd (s : AppendFile) : AppendStep → Prop
  | .stat _ _ => True
  | .write d _ _ _ _ => (s.offset d).toNat = s.node.size

theorem step_intact (s : AppendFile) (op : AppendStep) (h : Intact s) (hop : AtEnd s op) :
    Intact (step s op) := by
  cases op with
  | stat d found => cases found <;> exact ⟨h.writable, h.kept, h.apart⟩
  | write d length src pages synced =>
    change (s.offset d).toNat = s.node.size at hop
    obtain ⟨hw, hcontents⟩ := writeNode_spec h.writable (s.offset d) length src pages
      (Or.inl (Nat.le_of_eq hop))
    simp only [step]
    generalize writeNode s.node (s.offset d) length src pages = out at hw hcontents ⊢
    obtain ⟨node, _ | written⟩ := out <;> dsimp only at hw hcontents ⊢
    · have hsize : node.size = s.node.size := congrArg SparseBytes.size hcontents
      exact ⟨hw, by simpa only [hcontents, hsize] using h.kept, h.apart⟩
    · have hsize : node.size = s.node.size + written := by
        have := congrArg SparseBytes.size hcontents
        simp only [SparseBytes.store, Vnode.contents, hop] at this
        split_ifs at this <;> omega
      refine ⟨hw, ?_, ?_⟩
      · simp only [List.mem_append, List.mem_singleton, hcontents, hsize, SparseBytes.store,
          SparseBytes.overlay, hop]
        -- a block stored before ends at or before the offset of this write
        rintro b (hb | rfl)
        · obtain ⟨hin, hbyte⟩ := h.kept b hb
          exact ⟨by omega, fun i hi => by rw [if_neg (by omega), hbyte i hi]⟩
        · exact ⟨le_rfl, fun i hi => by simp [hi]⟩
      · rw [List.pairwise_append]
        refine ⟨h.apart, List.pairwise_singleton _ _, fun b hb c hc => ?_⟩
        rw [List.mem_singleton.mp hc]
        exact Nat.le_trans (h.kept b hb).1 (Nat.le_of_eq hop.symm)

theorem appends_stay_apart {s : AppendFile} (hw : Writable s.node) (hstart : s.blocks = [])
    {ops : List AppendStep} (hops : Machine.Guarded step AtEnd s ops) :
    Intact (Machine.run step s ops) :=
  hops.invariant Intact step_intact ⟨hw, by simp [hstart], by simp [hstart]⟩

def emptyAppend : AppendFile := ⟨newFile, fun _ => 0, []⟩

/-- Two descriptions append one byte each, one after the other. -/
theorem appends_stay_apart_pair : Intact (Machine.run step emptyAppend
      [.stat 0 .node, .write 0 1 (fun _ => 65) 1 true,
        .stat 1 .node, .write 1 1 (fun _ => 66) 1 true]) :=
  appends_stay_apart writable_newFile rfl ⟨trivial, rfl, trivial, rfl, trivial⟩

/-- Both descriptions read the size before either writes: the second byte is
stored over the first. -/
theorem appends_overlap : Writable emptyAppend.node ∧ ¬ Intact (Machine.run step emptyAppend
      [.stat 0 .node, .stat 1 .node,
        .write 0 1 (fun _ => 65) 1 true, .write 1 1 (fun _ => 66) 1 true]) :=
  ⟨writable_newFile, fun h => by have := h.apart; revert this; decide⟩

end AppendFile

end XsCore.Vfs
