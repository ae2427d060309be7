import Mathlib.Data.List.DropRight
import Xdccget.TableChanges

set_option autoImplicit false

/-!
# The paths that downloads are stored under

`getCompletePath` puts one separator behind a target directory that does not end with one,
and the name of the offer behind that. The separator is the one of the system.
-/
namespace Xdccget.TargetPaths
open CText DccMessages ClientState Downloads DccEvents DownloadSpecs TableChanges

def joined (sep : UInt8) (dir name : Bytes) : Bytes :=
  (if dir.getLast? = some sep then dir else dir ++ [sep]) ++ name

theorem getCompletePath_eq (cfg : XdccGetConfig) (filename : Bytes) :
    getCompletePath cfg filename = joined slash cfg.targetDir filename := rfl

/-- The path is the directory with one separator behind it, and one name behind that. -/
structure Inside (sep : UInt8) (dir path : Bytes) : Prop where
  parts : ∃ name, path = dir.rdropWhile (· = sep) ++ sep :: name ∧
    slash ∉ name ∧ backslash ∉ name ∧ name ≠ bytes "." ∧ name ≠ bytes ".."
  root : dir = [] → path.head? ≠ some sep

theorem not_mem_of_legal {name : Bytes} (h : containsIllegalChars name = false) :
    slash ∉ name ∧ backslash ∉ name := by
  rw [containsIllegalChars, List.any_eq_false] at h
  constructor
  · intro hmem
    simpa using h _ hmem
  · intro hmem
    simpa using h _ hmem

theorem inside_of_eq {sep : UInt8} {dir name path : Bytes}
    (hpath : path = dir.rdropWhile (· = sep) ++ sep :: name) (hdir : dir ≠ [])
    (hlegal : containsIllegalChars name = false) :
    Inside sep dir path ↔ name ≠ bytes "." ∧ name ≠ bytes ".." := by
  constructor
  · rintro ⟨⟨other, hother, -, -, hdot, hdots⟩, -⟩
    obtain rfl : name = other := by
      have htail := List.append_cancel_left (hpath.symm.trans hother)
      exact (List.cons.inj htail).2
    exact ⟨hdot, hdots⟩
  · rintro ⟨hdot, hdots⟩
    obtain ⟨hslash, hbackslash⟩ := not_mem_of_legal hlegal
    exact ⟨⟨name, hpath, hslash, hbackslash, hdot, hdots⟩, fun hnil => absurd hnil hdir⟩

theorem not_inside_of_two {sep : UInt8} (hsep : sep = slash ∨ sep = backslash) (l name : Bytes) :
    ¬ Inside sep (l ++ [sep, sep]) (l ++ [sep, sep] ++ name) := by
  rintro ⟨⟨other, hother, hslash, hbackslash, -, -⟩, -⟩
  have hnot : sep ∉ other := by
    rcases hsep with rfl | rfl
    · exact hslash
    · exact hbackslash
  have hdrop : (l ++ [sep, sep]).rdropWhile (· = sep) = l.rdropWhile (· = sep) := by
    rw [show l ++ [sep, sep] = l ++ [sep] ++ [sep] by simp, List.rdropWhile_concat_pos _ _ _ (by simp),
      List.rdropWhile_concat_pos _ _ _ (by simp)]
  obtain ⟨rest, hrest⟩ := List.rdropWhile_prefix (fun c => decide (c = sep)) l
  rw [hdrop] at hother
  nth_rewrite 1 [← hrest] at hother
  rw [List.append_assoc, List.append_assoc] at hother
  have htail := List.append_cancel_left hother
  cases rest with
  | nil =>
    obtain ⟨-, rfl⟩ := List.cons.inj htail
    exact hnot List.mem_cons_self
  | cons c rest =>
    obtain ⟨-, rfl⟩ := List.cons.inj htail
    exact hnot (List.mem_append_right _ List.mem_cons_self)

theorem two_suffix_iff (sep c : UInt8) (l : Bytes) :
    [sep, sep] <:+ l ++ [c] ↔ c = sep ∧ l.getLast? = some sep := by
  constructor
  · rintro ⟨l', hl'⟩
    have hsplit : l' ++ [sep] ++ [sep] = l ++ [c] := by simpa using hl'
    obtain ⟨hl, hc⟩ := List.append_inj' hsplit rfl
    obtain rfl := (List.cons.inj hc).1
    exact ⟨rfl, by rw [← hl, List.getLast?_concat]⟩
  · rintro ⟨rfl, hlast⟩
    obtain ⟨l', rfl⟩ := List.getLast?_eq_some_iff.mp hlast
    exact ⟨l', by simp⟩

/-- A legal name is joined well, except to no directory, behind two separators, or as one of the
two names that stand for directories. -/
theorem joined_inside_iff {sep : UInt8} (hsep : sep = slash ∨ sep = backslash) (dir : Bytes)
    {name : Bytes} (hlegal : containsIllegalChars name = false) :
    Inside sep dir (joined sep dir name) ↔
      dir ≠ [] ∧ ¬ [sep, sep] <:+ dir ∧ name ≠ bytes "." ∧ name ≠ bytes ".." := by
  rcases List.eq_nil_or_concat' dir with rfl | ⟨l, c, rfl⟩
  · exact iff_of_false (fun h => h.root rfl rfl) fun h => h.1 rfl
  · have hne : l ++ [c] ≠ [] := by simp
    by_cases hc : c = sep
    · subst hc
      have hjoined : joined c (l ++ [c]) name = l ++ [c] ++ name := by simp [joined]
      have hdrop : (l ++ [c]).rdropWhile (· = c) = l.rdropWhile (· = c) :=
        List.rdropWhile_concat_pos _ _ _ (by simp)
      rw [hjoined]
      by_cases htwo : [c, c] <:+ l ++ [c]
      · refine iff_of_false ?_ fun h => h.2.1 htwo
        obtain ⟨l', hl'⟩ := htwo
        rw [← hl']
        exact not_inside_of_two hsep l' name
      · have hone : l.rdropWhile (· = c) = l := by
          rw [List.rdropWhile_eq_self_iff]
          intro hl hlast
          apply htwo
          rw [two_suffix_iff, List.getLast?_eq_some_getLast hl]
          exact ⟨rfl, congrArg some (of_decide_eq_true hlast)⟩
        rw [inside_of_eq (by rw [hdrop, hone]; simp) hne hlegal]
        simp [htwo]
    · have hjoined : joined sep (l ++ [c]) name = l ++ [c] ++ sep :: name := by simp [joined, hc]
      have hdrop : (l ++ [c]).rdropWhile (· = sep) = l ++ [c] :=
        List.rdropWhile_concat_neg _ _ _ (by simpa using hc)
      have htwo : ¬ [sep, sep] <:+ l ++ [c] := fun h => hc ((two_suffix_iff sep c l).mp h).1
      rw [hjoined, inside_of_eq (by rw [hdrop]) hne hlegal]
      simp [htwo]

def Opens (s : Client) (e : Event) (path : Bytes) : Prop :=
  ∃ i c fd, s.downloadContext.length ≤ i ∧ (step s e).downloadContext[i]? = some c ∧
    c.fd = some fd ∧ fd.fileName = path

/-- The contexts from `n` on have this file open, or none. -/
def NewNamed (n : ℕ) (path : Bytes) (s : Client) : Prop :=
  ∀ (i : ℕ) c, n ≤ i → s.downloadContext[i]? = some c → ∀ fd ∈ c.fd, fd.fileName = path

theorem newNamed_modify {n : ℕ} {path : Bytes} {s : Client} (h : NewNamed n path s) (context : ℕ)
    (g : DccDownloadContext → DccDownloadContext)
    (hg : ∀ c, s.downloadContext[context]? = some c →
      ∀ fd' ∈ (g c).fd, ∃ fd ∈ c.fd, fd'.fileName = fd.fileName)
    {contexts : List DccDownloadContext} (hcontexts : contexts = s.downloadContext.modify context g) :
    ∀ (i : ℕ) c, n ≤ i → contexts[i]? = some c → ∀ fd ∈ c.fd, fd.fileName = path := by
  intro i c' hi hc' fd' hfd'
  rw [hcontexts, List.getElem?_modify] at hc'
  obtain ⟨c, hc, rfl⟩ := Option.map_eq_some_iff.mp hc'
  by_cases heq : context = i
  · rw [if_pos heq] at hfd'
    obtain ⟨fd, hfd, hname⟩ := hg c (heq ▸ hc) fd' hfd'
    exact hname.trans (h i c hi hc fd hfd)
  · rw [if_neg heq] at hfd'
    exact h i c hi hc fd' hfd'

theorem newNamed_of_change {b : Bool} {n : ℕ} {path : Bytes} {s s' : Client}
    (h : NewNamed n path s) (hc : Change b s s') : NewNamed n path s' := by
  cases hc with
  | sessions net lastId ds hl => exact h
  | chunk data hc hfd =>
    refine newNamed_modify h _ _ (fun c hc' fd' hfd' => ?_) rfl
    obtain rfl := Option.some.inj (hc.symm.trans hc')
    obtain rfl := Option.some.inj hfd'
    exact ⟨_, hfd, rfl⟩
  | lost length hc hfd =>
    exact newNamed_modify h _ (addRcvd length) (fun c _ fd' hfd' => ⟨fd', hfd', rfl⟩) rfl
  | complete hb net hc hfd hsize hl =>
    exact newNamed_modify h _ closed (fun c _ fd' hfd' => absurd hfd' (by simp [closed])) rfl
  | rewind length hc hfd =>
    refine newNamed_modify h _ _ (fun c hc' fd' hfd' => ?_) rfl
    obtain rfl := Option.some.inj (hc.symm.trans hc')
    obtain rfl := Option.some.inj hfd'
    exact ⟨_, hfd, rfl⟩
  | output =>
    intro i c' hi hc' fd hfd
    rw [List.getElem?_map] at hc'
    obtain ⟨c, hc, rfl⟩ := Option.map_eq_some_iff.mp hc'
    exact h i c hi hc fd hfd
  | halt fault => exact h

theorem newNamed_of_changes {b : Bool} {n : ℕ} {path : Bytes} {s s' : Client}
    (h : NewNamed n path s) (hc : Changes b s s') : NewNamed n path s' :=
  hc.invariant (fun _ _ => newNamed_of_change) h

theorem length_of_changes {b : Bool} {s s' : Client} (h : Changes b s s') :
    s'.downloadContext.length = s.downloadContext.length ∧ s'.cfg = s.cfg := by
  have hstep : ∀ t t' : Client,
      t.downloadContext.length = s.downloadContext.length ∧ t.cfg = s.cfg → Change b t t' →
        t'.downloadContext.length = s.downloadContext.length ∧ t'.cfg = s.cfg := by
    rintro t t' ⟨hlength, hcfg⟩ hc
    rw [← hlength, ← hcfg]
    cases hc with
    | sessions net lastId ds hl => exact ⟨rfl, rfl⟩
    | chunk data hc hfd => exact ⟨List.length_modify _ _ _, rfl⟩
    | lost length hc hfd => exact ⟨List.length_modify _ _ _, rfl⟩
    | complete hb net hc hfd hsize hl => exact ⟨List.length_modify _ _ _, rfl⟩
    | rewind length hc hfd => exact ⟨List.length_modify _ _ _, rfl⟩
    | output => exact ⟨List.length_map _, rfl⟩
    | halt fault => exact ⟨rfl, rfl⟩
  exact h.invariant hstep ⟨rfl, rfl⟩

theorem opened_path {s : Client} {e : Event} {path : Bytes} (h : Opens s e path) :
    ∃ env nick req filename, e = .request env nick req ∧
      (dccRequestCall true req).filename = some filename ∧ containsIllegalChars filename = false ∧
        path = getCompletePath s.cfg filename := by
  obtain ⟨i, c, fd, hi, hc, hfd, rfl⟩ := h
  by_cases hstarts : StartsDownload s e
  · cases e with
    | request env nick req =>
      obtain ⟨filename, hname, hlegal, t, size, fd', files, ht, hfd', hs'⟩ :=
        step_starts_as (b := true) hstarts
      obtain ⟨hlength, hcfg⟩ := length_of_changes ht
      have hnew : NewNamed s.downloadContext.length (getCompletePath s.cfg filename)
          (withDownload t (newDccProgress env (getCompletePath t.cfg filename) size) fd' files) := by
        intro k c' hk hc' file hfile
        rw [withDownload_downloadContext] at hc'
        have hlast : k = t.downloadContext.length := by
          have hlt := (List.getElem?_eq_some_iff.mp hc').1
          rw [List.length_append, List.length_singleton] at hlt
          omega
        rw [hlast, List.getElem?_append_right (le_refl _), Nat.sub_self] at hc'
        obtain rfl := Option.some.inj hc'
        rw [← hcfg]
        exact hfd' file hfile
      exact ⟨env, nick, req, filename, rfl, hname, hlegal,
        newNamed_of_changes hnew hs' i c hi hc fd hfd⟩
    | socket dccid ready => exact hstarts.elim
    | addDescriptors => exact hstarts.elim
    | outputTimer => exact hstarts.elim
  · have hlength := (length_of_changes (step_changes hstarts)).1
    have hlt := (List.getElem?_eq_some_iff.mp hc).1
    omega

/-- What a request opens stays in the target directory exactly when there is one, it does not end
with two separators, and the name stands for no directory. -/
theorem opened_inside_iff {s : Client} {env : Env} {nick : Option Bytes} {req filename path : Bytes}
    (hopens : Opens s (.request env nick req) path)
    (hname : (dccRequestCall true req).filename = some filename) :
    Inside slash s.cfg.targetDir path ↔
      s.cfg.targetDir ≠ [] ∧ ¬ [slash, slash] <:+ s.cfg.targetDir ∧
        filename ≠ bytes "." ∧ filename ≠ bytes ".." := by
  obtain ⟨env', nick', req', filename', he, hname', hlegal, rfl⟩ := opened_path hopens
  obtain ⟨-, -, rfl⟩ := Event.request.inj he
  obtain rfl := Option.some.inj (hname.symm.trans hname')
  rw [getCompletePath_eq]
  exact joined_inside_iff (.inl rfl) s.cfg.targetDir hlegal

def rootBot : XdccGetConfig := { oneBot false with targetDir := [] }

/-- Without a target directory the file is opened in the root directory. -/
theorem empty_target_opens_root :
    Opens (initial rootBot connected noFiles) (botRequest "DCC SEND f 16909060 5000 4") (bytes "/f") ∧
      ¬ Inside slash rootBot.targetDir (bytes "/f") := by
  constructor
  · exact ⟨0, _, _, le_refl 0, rfl, rfl, by decide⟩
  · exact fun h => h.root rfl rfl

theorem opened_inside_dir :
    Inside slash (oneBot false).targetDir (bytes "d/f") ↔
      (oneBot false).targetDir ≠ [] ∧ ¬ [slash, slash] <:+ (oneBot false).targetDir ∧
        bytes "f" ≠ bytes "." ∧ bytes "f" ≠ bytes ".." := by
  have hopens : Opens (initial (oneBot false) connected noFiles)
      (.request readyEnv (some (bytes "bot")) (bytes "DCC SEND f 16909060 5000 4")) (bytes "d/f") :=
    ⟨0, _, _, le_refl 0, rfl, rfl, by decide⟩
  exact opened_inside_iff hopens (by decide)

end Xdccget.TargetPaths
