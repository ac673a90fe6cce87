/-
  The texts that the program shows as they stand.
-/

namespace Reckoner.Notice

/-- The lines of a text, put together. -/
def lines (texts : List String) : String :=
  "\n".intercalate texts

/-- The terms of use, shown on request and at the start of an interactive run. -/
def licence : String := lines [
  "tiercalc  Copyright (C) 2025  the tiercalc contributors",
  "This program comes with ABSOLUTELY NO WARRANTY.",
  "This is free software, and you are welcome to redistribute it",
  "under certain conditions; see the GNU Affero General Public Licence,",
  "version 3 or later, for details."]

/-- How expressions are written. -/
def help : String := lines [
  "Write expressions with every number and operator separated by spaces:",
  "    2 * (3 + 4) ! - 1",
  "Parentheses may touch the number next to them, as in `(3` or `4)`.",
  "",
  "Tiers, each reduced strictly left to right:",
  "    A   **  //  !  sin  cos  tan  dsin  dcos  dtan  abs",
  "    B   *  /  %  nCr  nPr",
  "    C   +  -  log",
  "`a // b` is the a-th root of b, `a log b` the logarithm of a to base b.",
  "",
  "Constants: pi tau e g phi c ans (prefix `-` to negate)",
  "Commands:  help, licence, exit"]

/-- The name and version of the program. -/
def version : String := "tiercalc 0.5.0"

/-- What follows the message of the failure that ends the program. -/
def farewell : String := lines [
  "Never gonna give you up!",
  "Never gonna let you down",
  "..."]

/-- What is shown when a line is awaited. -/
def prompt : String := "> "

/-- The message for input that is no text. -/
def invalidText : String := "stream did not contain valid UTF-8"

end Reckoner.Notice
