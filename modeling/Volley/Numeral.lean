/-!
A library of algebra brings a second power and prefers it. With this choice definitions are the same
whatever else is imported.
-/

attribute [instance (1100)] instPowNat
attribute [default_instance 20000] instPowNat
