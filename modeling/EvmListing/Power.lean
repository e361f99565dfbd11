/-! Powers are those of the core library in every module, whatever monoids are in scope there, so
that one text means one number. -/

attribute [instance (2000), default_instance 20000] instPowNat
