import Saturation.Proofs.Arguments
import Saturation.Proofs.Listings
import Saturation.Proofs.Sessions

/-!
# A search in several calls

A call loads what another has saved and goes on from there.  This does not show in the end: the
files after several calls are those after one call that is given as many rounds at once, and the
last line is the same (`callAll_eq_once`).

The turning point is that the document that is loaded is read as it was saved.  That holds of a
search with legible clauses, and a listing gives no others.  So a call leaves the search as many
rounds on as it takes, whether it starts from a listing or goes on from a saved search
(`Call.Takes.leaves`), and calls one after the other add up (`callAll_leaves`).
-/

namespace Saturation

open Search

/-! ## Rounds that are taken -/

/-- A run takes so many rounds: its cap is that many, or it is interrupted when it is about to go
beyond them and has not reached its cap before. -/
inductive Limits.EndAt (l : Limits) : ℤ → Prop
  | capped {k : ℤ} (hcap : l.cap = .rounds k) (hpatience : l.patience = none) : EndAt l k
  | interrupted {n : ℕ} (hpatience : l.patience = some n)
      (hcap : l.cap = .uncapped ∨ ∃ k : ℤ, l.cap = .rounds k ∧ n ≤ k) : EndAt l n

lemma Limits.EndAt.allow {l : Limits} {k : ℤ} (h : l.EndAt k) : l.Allow k.toNat := by
  cases h with
  | capped hcap hpatience =>
      refine ⟨by rw [hcap]; nofun, fun i hi => ?_, .inl ?_⟩
      · rw [hcap, hpatience]
        have hreached : ¬ k ≤ i := by omega
        exact ⟨hreached, nofun⟩
      · rw [hcap]
        exact Int.self_le_toNat k
  | @interrupted n hpatience hcap =>
      rw [Int.toNat_natCast]
      refine ⟨?_, fun i hi => ⟨?_, ?_⟩, .inr hpatience⟩
      · rcases hcap with hcap | ⟨k, hcap, -⟩ <;> rw [hcap] <;> nofun
      · rcases hcap with hcap | ⟨k, hcap, hk⟩
        · rw [hcap]
          exact not_false
        · rw [hcap]
          have hreached : ¬ k ≤ i := by omega
          exact hreached
      · rw [hpatience, Ne, Option.some.injEq]
        omega

/-- The cap and the interruption are all that counts. -/
lemma Limits.EndAt.congr {l l' : Limits} {k : ℤ} (h : l.EndAt k) (hcap : l'.cap = l.cap)
    (hpatience : l'.patience = l.patience) : l'.EndAt k := by
  cases h with
  | capped hc hp => exact .capped (hcap.trans hc) (hpatience.trans hp)
  | interrupted hp hc => exact .interrupted (hpatience.trans hp) (by rwa [hcap])

namespace CommandLine

/-! ## Calls -/

/-- A command line, and after how many rounds an interruption comes, if one does. -/
structure Call where
  args : List String
  patience : Option ℕ := none

def Call.session (c : Call) (files : Files) : Session :=
  call (m := Id) files.textOf c.patience c.args

/-- The files after calls one after the other, and the last session. -/
def callAll (files : Files) (c : Call) : List Call → Files × Session
  | [] => (files.after (c.session files), c.session files)
  | next :: rest => callAll (files.after (c.session files)) next rest

/-- The call starts from the source, saves in the file, and takes so many rounds. -/
def Call.Takes (c : Call) (source : Source) (save : String) (k : ℤ) : Prop :=
  ∃ o, Options.ofArguments c.args = .ok o ∧ o.source = source ∧ named? o.save = some save ∧
    (o.limits c.patience).EndAt k

variable {files : Files} {c : Call} {source : Source} {file save text : String} {k : ℤ}
  {ks : List ℤ} {rest : List Call} {es : List Entry} {s : Search}

/-- **A call leaves the search as many rounds on as it takes.** -/
lemma Call.Takes.leaves (h : c.Takes source save k) (htext : files.textOf source = .ok text)
    (hsource : source.search text = .ok s) (hs : Reachable es s) (hes : ∀ e ∈ es, e.Legible)
    (hsaved : ∀ t, Reachable es t → t.saveFault? = none) (m : Mode) :
    (c.session files).Leaves save ((next m)^[k.toNat] s) := by
  obtain ⟨o, ho, rfl, hsave, hends⟩ := h
  have hsession : c.session files = o.session c.patience text := by
    rw [Call.session, call, ho]
    dsimp only
    rw [htext]
    rfl
  rw [hsession]
  exact leaves_session hsource hs hes hsaved hsave hends.allow m

/-- Calls one after the other, of which all but the first load what the one before has saved. -/
lemma callAll_leaves (htext : files.textOf source = .ok text)
    (hsource : source.search text = .ok s) (hs : Reachable es s) (hes : ∀ e ∈ es, e.Legible)
    (hsaved : ∀ t, Reachable es t → t.saveFault? = none) (hc : c.Takes source save k)
    (hrest : List.Forall₂ (fun c k => c.Takes (.saved save) save k) rest ks) (m : Mode) :
    (callAll files c rest).2.Leaves save ((next m)^[((k :: ks).map Int.toNat).sum] s) ∧
      (callAll files c rest).1 = Function.update files save
        (some ((next m)^[((k :: ks).map Int.toNat).sum] s).save) := by
  have hleaves := hc.leaves htext hsource hs hes hsaved m
  induction hrest generalizing files c source text s k with
  | nil =>
      rw [List.map_singleton, List.sum_singleton]
      exact ⟨hleaves, hleaves.files files⟩
  | @cons later k' rest ks hlater _ ih =>
      have ht : Reachable es ((next m)^[k.toNat] s) := hs.iterate m k.toNat
      have htext' : (files.after (c.session files)).textOf (.saved save) =
          .ok ((next m)^[k.toNat] s).save := by
        rw [hleaves.files]
        simp only [Files.textOf, Source.file?, Function.update_self]
      have hsource' : (Source.saved save).search ((next m)^[k.toNat] s).save =
          .ok ((next m)^[k.toNat] s) := by
        rw [Source.search, load_eq ((ht.legible hes).read_save (hsaved _ ht))]
      have hsum : (next m)^[((k' :: ks).map Int.toNat).sum] ((next m)^[k.toNat] s) =
          (next m)^[((k :: k' :: ks).map Int.toNat).sum] s := by
        rw [← Function.iterate_add_apply, Nat.add_comm]
        rfl
      obtain ⟨hlast, hfiles⟩ := ih htext' hsource' ht hlater
        (hlater.leaves htext' hsource' ht hes hsaved m)
      rw [hsum] at hlast hfiles
      refine ⟨hlast, hfiles.trans ?_⟩
      rw [hleaves.files]
      exact Function.update_idem _ _ _

lemma toNat_sum_max (ks : List ℤ) : (ks.map (max 0)).sum.toNat = (ks.map Int.toNat).sum := by
  have hsum : (ks.map (max 0)).sum = ((ks.map Int.toNat).sum : ℤ) := by
    induction ks with
    | nil => rfl
    | cons k ks ih =>
        rw [List.map_cons, List.sum_cons, ih, List.map_cons, List.sum_cons, Nat.cast_add,
          Int.toNat_eq_max, max_comm]
  rw [hsum, Int.toNat_natCast]

/-- **Calls one after the other do what one call does** that takes as many rounds as they do
together.  The first starts from a listing and each of the others loads what was saved before; they
may be capped or interrupted, strict or not, quiet or not, and spelled in any way.  All files are
the same in the end and so is the last line; the last session ends well, with the search saved and
its decision on the last line.  All that is asked is that what is saved is saved in full.

The last part says how such calls are spelled, as far as the number can be read at all. -/
theorem callAll_eq_once (hfile : files file = some text)
    (hread : Listing.read (Text.lines ↑(Text.unifyBreaks text)) = .ok es)
    (hsaved : ∀ s, Reachable es s → s.saveFault? = none) :
    (∀ (first once : Call) (rest : List Call) (k : ℤ) (ks : List ℤ),
      first.Takes (.listing file) save k →
      List.Forall₂ (fun c k => c.Takes (.saved save) save k) rest ks →
      once.Takes (.listing file) save ((k :: ks).map (max 0)).sum →
        (callAll files first rest).1 = (callAll files once []).1 ∧
        (callAll files first rest).2.lines.getLast? = (callAll files once []).2.lines.getLast? ∧
        ∃ t, Reachable es t ∧ (callAll files once []).1 save = some t.save ∧
          (callAll files first rest).2.Leaves save t ∧ (callAll files once []).2.Leaves save t) ∧
    ∀ (k n : ℤ) (patience : Option ℕ) (strict quiet : Bool), Text.isWritable k = true →
      Limits.EndAt { cap := .rounds k, patience } n →
      file ≠ "" → file.toList.head? ≠ some '-' → save ≠ "" → save.toList.head? ≠ some '-' →
        Call.Takes ⟨file :: settings k save strict quiet, patience⟩ (.listing file) save n ∧
        Call.Takes ⟨"--load" :: save :: settings k save strict quiet, patience⟩
          (.saved save) save n := by
  constructor
  · intro first once rest k ks hfirst hrest honce
    have hes : ∀ e ∈ es, e.Legible := Listing.legible_of_read (Text.whole_ofString _) hread
    have htext : files.textOf (.listing file) = .ok text := by
      simp only [Files.textOf, Source.file?, hfile]
    have hsource : (Source.listing file).search text = .ok (.start es) := by
      simp only [Source.search, hread]
    obtain ⟨hlast, hfiles⟩ :=
      callAll_leaves htext hsource .start hes hsaved hfirst hrest .permissive
    obtain ⟨hlast', hfiles'⟩ :=
      callAll_leaves htext hsource .start hes hsaved honce .nil .permissive
    rw [List.map_singleton, List.sum_singleton, toNat_sum_max] at hlast' hfiles'
    refine ⟨hfiles.trans hfiles'.symm, hlast.last.trans hlast'.last.symm, _,
      reachable_iterate .permissive _, ?_, hlast, hlast'⟩
    rw [hfiles', Function.update_self]
  · intro k n patience strict quiet hk hends hfile hfile' hsave hsave'
    have hnamed : ∀ name : String, name ≠ "" → named? (some name) = some name := by
      intro name hname
      rw [named?, Option.filter_some, if_pos (bne_iff_ne.2 hname)]
    refine ⟨⟨_, ofArguments_listing hfile' hsave' hk, ?_, hnamed save hsave, hends.congr rfl rfl⟩,
      ⟨_, ofArguments_saved hsave' hsave' hk, ?_, hnamed save hsave, hends.congr rfl rfl⟩⟩
    · simp only [Options.source, hnamed file hfile]
      rfl
    · simp only [Options.source, hnamed save hsave]

section

open Sample

def shortListing : String := "frost\n~frost ice\n~ice\nend\n"

/-- What is read from it. -/
def shortEntries : List Entry :=
  let frost : Atom := ⟨"frost", by decide⟩
  let ice : Atom := ⟨"ice", by decide⟩
  [entry "line 1" [pos frost], entry "line 2" [neg frost, pos ice], entry "line 3" [neg ice]]

lemma read_shortListing :
    Listing.read (Text.lines ↑(Text.unifyBreaks shortListing)) = .ok shortEntries := by
  rfl

/-- The search comes to its end after two rounds, so three searches are to be saved. -/
lemma saved_shortEntries (s : Search) (h : Reachable shortEntries s) : s.saveFault? = none := by
  have hend : ((next .permissive)^[2] (start shortEntries)).isHalted = true := by decide +kernel
  exact saved_of_isHalted hend (by decide +kernel) s h

def shortFiles : Files := fun name => if name = "clauses.txt" then some shortListing else none

/-- Two rounds at once. -/
def atOnce : Call := { args := "clauses.txt" :: settings 2 "state.json" false true }

def oneRound : Call := { args := "clauses.txt" :: settings 1 "state.json" true false }

def noRound : Call :=
  { args := "--load" :: "state.json" :: settings (-2) "state.json" false false }

/-- There is no cap, but an interruption before the second round. -/
def oneMore : Call :=
  { args := ["--load", "state.json", "--strict", "--save", "state.json"], patience := some 1 }

lemma decision_atOnce :
    (callAll shortFiles atOnce []).2.lines.getLast? = some ↑"Unsatisfiable" := by
  decide +kernel

/-- Two rounds in three calls. -/
theorem callAll_eq_once_shortListing :
    shortFiles "clauses.txt" = some shortListing ∧
      Listing.read (Text.lines ↑(Text.unifyBreaks shortListing)) = .ok shortEntries ∧
      (∀ s, Reachable shortEntries s → s.saveFault? = none) ∧
      (callAll shortFiles oneRound [noRound, oneMore]).1 = (callAll shortFiles atOnce []).1 ∧
      (callAll shortFiles oneRound [noRound, oneMore]).2.lines.getLast? =
        some ↑"Unsatisfiable" ∧
      ∃ t : Search,
        (callAll shortFiles oneRound [noRound, oneMore]).1 "state.json" = some t.save := by
  have hfile : shortFiles "clauses.txt" = some shortListing := rfl
  have hmore : oneMore.Takes (.saved "state.json") "state.json" 1 :=
    ⟨_, rfl, rfl, rfl, .interrupted rfl (.inl rfl)⟩
  obtain ⟨hparts, hspelled⟩ := callAll_eq_once hfile read_shortListing saved_shortEntries
  have hspelled (k : ℤ) (strict quiet : Bool) (hk : Text.isWritable k = true) :=
    hspelled k k none strict quiet hk (.capped rfl rfl) (by decide) (by decide)
      (by decide : "state.json" ≠ "") (by decide)
  have hone : oneRound.Takes (.listing "clauses.txt") "state.json" 1 :=
    (hspelled 1 true false (by decide +kernel)).1
  have hno : noRound.Takes (.saved "state.json") "state.json" (-2) :=
    (hspelled (-2) false false (by decide +kernel)).2
  have honce : atOnce.Takes (.listing "clauses.txt") "state.json" 2 :=
    (hspelled 2 false true (by decide +kernel)).1
  obtain ⟨hfiles, hlines, t, -, ht, -⟩ :=
    hparts oneRound atOnce [noRound, oneMore] 1 [-2, 1] hone (.cons hno (.cons hmore .nil)) honce
  exact ⟨hfile, read_shortListing, saved_shortEntries, hfiles, hlines.trans decision_atOnce, t,
    (congrFun hfiles "state.json").trans ht⟩

end

end CommandLine

end Saturation
