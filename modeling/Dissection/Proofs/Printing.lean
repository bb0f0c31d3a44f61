import Dissection.CommandLine.Stream
import Dissection.Proofs.Rendering
import Dissection.Proofs.Returning

/-!
# Records that can be printed

A line is processed as a record of one text.  What a filter that was registered with a
configuration puts on it are texts, lists of texts, integers and binary64 numbers, all of them
under texts, and JSON has a notation for each.

## Main definitions

* `Record.Printable` — what a filter makes of a record of one line.

## Main statements

* `Record.lasting_printable` — every write and every tag leaves a record that can be printed.
* `CommandLine.Stream.exists_recordText` — a record that can be printed is printed.
-/

namespace Dissection

open Text Traversal Dissection.Action Dissection.Record

namespace Value

variable {v : Value}

theorem Printable.exists_write (h : v.Printable) (fallback : Json.Fallback) :
    ∃ text, Json.write fallback v = .ok text := by
  cases h with
  | text t => exact ⟨_, rfl⟩
  | texts texts =>
    refine Json.exists_write_list_iff.2 fun v hv => ?_
    obtain ⟨t, -, rfl⟩ := List.mem_map.1 hv
    exact ⟨_, rfl⟩
  | int hn => exact ⟨_, if_pos hn⟩
  | float x => exact ⟨_, rfl⟩

end Value

/-! ## Records -/

namespace Record

variable {r : Record} {failureTags : Value}

/-- A field under a text leaves fields under texts. -/
theorem named_put (hr : ∀ entry ∈ r.entries, ∃ name, entry.1 = .text name) (name : Text)
    (v : Value) : ∀ entry ∈ (Table.put r (.text name) v).entries, ∃ name, entry.1 = .text name :=
  fun entry he => (Table.forall_mem_put (P := fun key : Value => ∃ name, key = .text name)
    (Q := fun _ => True) (fun entry he => ⟨hr entry he, trivial⟩) ⟨name, rfl⟩ trivial entry he).1

/-- A record of values that can be shown, under texts. -/
structure Printable (r : Record) : Prop where
  named : ∀ entry ∈ r.entries, ∃ name, entry.1 = .text name
  shown : r.Shown

/-- Every write and every tag leaves a record that can be printed, if the failure tags are
texts. -/
theorem lasting_printable {tags : List Text} (htags : failureTags.items = .ok (tags.map .text)) :
    Lasting failureTags (fun r name v => (∃ t, name = .text t) ∧ r.Writable name v)
      Printable where
  put := by
    rintro r _ v ⟨⟨name, rfl⟩, hv⟩ hr
    exact ⟨named_put hr.named name v, (lasting_shown htags).put hv hr.shown⟩
  appendTag := by
    intro r r' tag htag hr happend
    refine ⟨?_, (lasting_shown htags).appendTag htag hr.shown happend⟩
    obtain ⟨found, hfound⟩ := exists_appendTag_iff.1 ⟨r', happend⟩
    rw [hfound.appendTag] at happend
    obtain rfl := Except.ok.inj happend
    exact named_put hr.named _ _

end Record

namespace Filter

/-- A record that can be printed is processed to one. -/
theorem printable_of_gives_process {c : Config} {f : Filter} {r final : Record} {s : Summary}
    (hf : (ofConfig c).register = .ok f) (hr : r.Printable) (h : f.process.Gives r s final) :
    final.Printable := by
  obtain ⟨⟨⟨⟨tags, htags⟩, -, -⟩, hconversions⟩, -⟩ := usable_of_register hf
  refine (lasting_printable htags).process hr h (fun _ _ _ _ _ => ⟨⟨_, rfl⟩, .text _⟩) ?_
    fun _ _ _ _ => ⟨⟨_, rfl⟩, .text _⟩
  intro entry he r v hv
  obtain ⟨name, datatype, rfl⟩ := hconversions entry he
  exact ⟨⟨name, rfl⟩, .converted hv⟩

end Filter

namespace CommandLine.Stream

/-- A record that can be printed is printed. -/
theorem exists_recordText {r : Record} (hr : r.Printable) : ∃ text, recordText r = .ok text := by
  refine Json.exists_write_map fun entry he => ?_
  obtain ⟨name, hname⟩ := hr.named entry he
  exact ⟨⟨name, by rw [hname]; rfl⟩, (hr.shown entry he).exists_write _⟩

end CommandLine.Stream

end Dissection
