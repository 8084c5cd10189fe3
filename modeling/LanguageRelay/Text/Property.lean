import LanguageRelay.Text.Category
import LanguageRelay.Text.Runs
namespace LanguageRelay.Text

def otherAlphabetic : List String := [
  "345.1.26a.e.1.1.1.2.1.2.1.1.48.b.30.d.1.7.10.1.65.7.4.4.2.2.4.1.23.1.1e.10.66.b.65.2.3.9",
  ".1.3.1.4.a7.c.3.7.6.14.36.2.2.f.1.2.5.3.a.2.1d.3.3a.7.2.2.2.2.a.1.a.2.1d.3.3a.5.4.2.2.2.",
  "4.1.1e.2.3.1.b.3.3a.8.1.3.1.2.15.2.16.3.4.3.3a.7.2.2.2.2.9.2.a.2.1e.1.3b.5.3.3.1.3.a.1.2",
  "8.5.39.7.1.3.1.3.8.2.b.2.1d.3.3a.7.1.3.1.3.8.2.b.2.f.1.c.4.3a.7.1.3.1.3.a.1.a.2.1d.3.4b.",
  "6.1.1.1.8.12.2.3d.1.2.7.12.1.63.1.2.6.1.2.10.1.a3.13.9.b.1.24.6e.c.1.1.2.4.17.4.4.3.1.3.",
  "2.7.3.4.d.c.1.1.a.4.674.2.1e.2.1e.2.1e.2.42.13.bc.2.22.1.76.c.4.9.de.5.39.a.2.14.4a.2.b.",
  "3.31.5.30.f.3c.3.1e.9.2.2.39.b.32.13.1b0.e.6c1.34.8f6.20.7874.8.22.2.162.1.8.1.17.5.58.2",
  ".32.10.1.1.39.1.26.5.1c.c.2d.4.30.c.25.1.43.e.c.1.8.2.2d.3.32.1.1.3.2.2.5.1.2c.5.5.1.ed.",
  "8.4f33.1.857.5.686.3.1.2.5.4.314.4.183.2.153.3.35.e.2d.2.b.3.2d.9.9.1.3d.3.24.c.12.2.39.",
  "3.30.d.e.2.5c.9.2.1.6.1.2.1.9d.a.17.4.3a.7.2.2.2.2.a.1.a.2.d1.d.1.3.6a.12.ed.7.2.7.1d.2.",
  "52.f.1.1.6a.b.67.e.101.d.f7.6.1.2.2.2.3.1.1.1.8e.7.2.6.4.1.1c.a.2a.5.1.4.12.b.2e.e.197.8",
  ".1.7.53.16.1.e.7a.6.3.1.1.2.1.3.1.1.3.1.42.5.1.2.1.4.15c.4.9.2.1.1.30.7.3.3.500e.1.1.37.",
  "7.4.5d.2.4cac.1.2361.7.1.11.2.7.1.2.1.5.64.1.8b7.1.7e8.1a.6.1a.6.1a"]

def otherLowercase : List String := [
  "aa.1.f.1.1f5.9.7.2.1e.5.60.1.34.1.d81.1.c2f.3f.d.1.22.25.2b1.1.d.1.10.d.d3.10.350.1a.792",
  ".2.7a1e.2.d2.1.81.3.3.2.362.4.9.1.5c16.1.2.3.1.2a.1.9.d875.3e"]

def otherUppercase : List String := [
  "2160.10.346.1a.1cc60.1a.6.1a.6.1a"]

def otherMath : List String := [
  "5e.1.371.3.2.1.1a.2.2.2.1c20.1.1b.3.b.1.20.4.18.2.e.2.41.d.4.1.3.2.4.5.12.1.4.1.2.a.1.1.",
  "3.5.6.1.3.2.2.2.1.3.1.6.3.4.5.5.4b.5.2.4.1.2.1.2.1.1.1.5.2.2.4.2.4.12.2.2.1.1.1.7.1.1.6.",
  "2.122.4.a8.2.1.1.18.1.11.1.1bd.2.c.9.5.5.5.2.2.2.3.5.e.1.1.1.2.6.18.2.39.1.1.1.1d.4.9.2.",
  "156.2.1f.a.193.16.3f.4.20.2.d463.1.1.1.4.1.d3.1.1.1.d4c1.55.1.47.1.2.2.1.2.2.2.4.1.c.1.1",
  ".1.7.1.41.1.4.2.8.1.7.1.1c.1.4.1.5.1.1.3.7.1.154.2.19.1.19.1.1f.1.19.1.1f.1.19.1.1f.1.19",
  ".1.1f.1.19.1.8.2.32.1600.4.1.1b.1.2.1.1.2.1.1.a.1.4.1.1.1.1.6.1.4.1.1.1.1.1.1.3.1.2.1.1.",
  "2.1.1.1.1.1.1.1.1.1.1.2.1.1.2.4.1.7.1.4.1.4.1.1.1.a.1.11.5.3.1.5.1.11"]

def emoji : List String := [
  "23.1.6.1.5.a.6f.1.4.1.1f8d.1.c.1.d8.1.16.1.5a.6.f.2.16f.2.c.1.a6.1.19.b.4.3.c7.1.e7.2.a.",
  "1.9.1.3a.4.1.5.9.1.2.1.2.2.2.1.4.1.2.1.1.2.2.1.3.1.3.2.8.3.5.1.1.1.5.c.b.2.2.1.1.2.1.1.1",
  "2.1.2.2.12.6.1.1.1.2.3.2.5.1.2.2.4.2.b.2.5.2.2.1.5.2.1.1.1.2.14.2.5.6.1.4.2.1.4.1.2.1.2.",
  "6.1.1.2.1.1.1.1.1.6.1.3.1.6.1.a.2.f.1.2.1.4.1.1.1.4.3.1.1.b.2.30.3.9.1.e.1.e.1.174.2.1cf",
  ".3.13.2.33.1.4.1.4da.1.c.1.259.1.1.1.1bd6a.1.ca.1.a0.2.c.2.e.1.2.a.4b.1a.1.2.17.1.14.1.2",
  ".9.15.2.ae.22.2.70.2.2.1.3.2.53.2.3.1.107.1.3f.b.6.1.18.7.2.2.8.c.1.2.4.2.1.4.2.d.2.2.1.",
  "8.2.9.1.5.3.c.3.8.3.2.1.1.1.4.1.6.1.3.1.6.56.30.46.5.8.2.3.4.a.3.1.1.2.3.1.2.a.e3.c.4.1.",
  "11b.2f.1.a.1.b9.70.d.3.9.7.2e.1.7.8.e.4.9.7.9"]

inductive Property where
  | alphabetic
  | lowercase
  | uppercase
  | math
  | emoji
deriving DecidableEq, Repr, Inhabited

namespace Property

def listed : Property → List String
  | alphabetic => otherAlphabetic
  | lowercase => otherLowercase
  | uppercase => otherUppercase
  | math => otherMath
  | emoji => Text.emoji

def covers : Property → Char × Char → Bool
  | alphabetic, (group, kind) => group == 'L' || (group == 'N' && kind == 'l')
  | lowercase, c => c == ('L', 'l')
  | uppercase, c => c == ('L', 'u')
  | math, c => c == ('S', 'm')
  | emoji, _ => false

def holds (p : Property) (c : Char) : Bool :=
  p.covers (category c) || inRuns (runsOf p.listed) c.toNat

end Property
end LanguageRelay.Text
